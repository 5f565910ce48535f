import TimeRoom.Numeric.Rounding
import TimeRoom.Numeric.RateLimit
import TimeRoom.Runs.Machine
import TimeRoom.Runs.Drain
import TimeRoom.Runs.Lifetimes
import TimeRoom.Frame.RgbdFrame
import TimeRoom.Frame.DepthMerge
import TimeRoom.Frame.MissingDepth
import TimeRoom.Frame.Camera
import TimeRoom.Buffer.Fragment
import TimeRoom.Buffer.VideoBuffer
import TimeRoom.Buffer.Steps
import TimeRoom.Buffer.Destruction
import TimeRoom.Buffer.Retrieval
import TimeRoom.Buffer.FileNames
import TimeRoom.Buffer.Ownership
import TimeRoom.Takes.Recording
import TimeRoom.Takes.Refinement
import TimeRoom.Takes.Windows
import TimeRoom.Takes.Segmentation
import TimeRoom.Takes.Lifecycle
import TimeRoom.Takes.Tags
import TimeRoom.Takes.Playback
import TimeRoom.Takes.Retrieval
import TimeRoom.Takes.Files
import TimeRoom.Takes.FileNames
import TimeRoom.Takes.Loading
import TimeRoom.Takes.Replay
import TimeRoom.Takes.Shelf
import TimeRoom.Takes.Pictures
import TimeRoom.Takes.Disk
import TimeRoom.Takes.Delays
import TimeRoom.Takes.Unseen
import TimeRoom.App.OfApp
import TimeRoom.App.Rounds
import TimeRoom.App.Sessions
import TimeRoom.App.Ownership
import TimeRoom.App.Screen
import TimeRoom.App.Rounds
import TimeRoom.App.Sessions
import TimeRoom.App.Ownership
import TimeRoom.App.Screen
import TimeRoom.App.Sessions
