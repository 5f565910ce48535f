import TimeRoom.Takes.FileNames

/-!
# The files on disk

What the recorders make of their commands is up to the video library, which is a
parameter: one that was closed and has finished leaves a file with the frames that
it was sent, and a path that no recorder was set up with stays as it is.  Then the
disk keeps every take that was closed, whatever was evicted since, and loses only
what an earlier life left at the same paths.
-/

namespace TimeRoom.Takes
open TimeRoom.Frame Buffer Runs VideoBuffer Recording

def colourFile (i : ℕ) : String := fragmentFileName i ++ Channel.rgb.suffix

/-- The complete video files, by their paths. -/
abbrev VideoFiles := String → Option (List (Image UInt8))

/-- What is assumed of the recorders, where `after` gives the files by those before and the
commands: every frame sent to a recorder is in its file when it is closed and has finished, and
other files stay. -/
structure WritesFiles (finished : ℕ → Channel → Prop)
    (after : VideoFiles → List (ℕ × Channel × Command) → VideoFiles) : Prop where
  closed : ∀ files ms i ch path w h fps pixels, finished i ch →
    received i ch ms = .setup path w h fps :: .start :: pixels.map .addFrame ++ [.close] →
    (∀ j ch' w' h' fps', (j, ch', .setup path w' h' fps') ∈ ms → j = i ∧ ch' = ch) →
    after files ms path = some pixels
  untouched : ∀ files ms path, (∀ i ch w h fps, (i, ch, .setup path w h fps) ∉ ms) →
    after files ms path = files path

/-- Recorders that finish when they are closed. -/
def writtenFiles (files : VideoFiles) (ms : List (ℕ × Channel × Command)) : VideoFiles :=
  fun path =>
    match ms.find? (fun m => m.2.2.path? = some path) with
    | none => files path
    | some (i, ch, _) =>
      if .close ∈ received i ch ms then some ((received i ch ms).filterMap Command.frame?)
      else none

theorem writtenFiles_writes (finished : ℕ → Channel → Prop) :
    WritesFiles finished writtenFiles := by
  constructor
  · intro files ms i ch path w h fps pixels _ hlog honly
    have hsetup : (i, ch, .setup path w h fps) ∈ ms := by
      apply mem_of_received
      rw [hlog]
      exact List.mem_cons_self
    have hframes : (received i ch ms).filterMap Command.frame? = pixels := by
      rw [hlog, List.cons_append, List.cons_append, List.filterMap_cons_none rfl,
        List.filterMap_cons_none rfl, List.filterMap_append, List.filterMap_map]
      simp [Function.comp_def, Command.frame?]
    have hclose : .close ∈ received i ch ms := by
      rw [hlog]
      simp
    cases hfind : ms.find? (fun m => m.2.2.path? = some path) with
    | none =>
      have hnone := List.find?_eq_none.mp hfind _ hsetup
      simp [Command.path?] at hnone
    | some m =>
      rcases m with ⟨j, ch', c⟩
      have hmem := List.mem_of_find?_eq_some hfind
      have hpath : c.path? = some path := by simpa using List.find?_some hfind
      cases c with
      | setup path' w' h' fps' =>
        obtain rfl : path' = path := Option.some_inj.mp hpath
        obtain ⟨rfl, rfl⟩ := honly j ch' w' h' fps' hmem
        rw [writtenFiles, hfind]
        simp only [if_pos hclose, hframes]
      | _ => cases hpath
  · intro files ms path hnever
    have hfind : ms.find? (fun m => m.2.2.path? = some path) = none := by
      rw [List.find?_eq_none]
      rintro ⟨i, ch, c⟩ hm
      cases c with
      | setup path' w h fps =>
        have hne : path' ≠ path := fun heq => hnever i ch w h fps (heq ▸ hm)
        simpa [Command.path?] using hne
      | _ => simp [Command.path?]
    rw [writtenFiles, hfind]

/-! ### All recorders -/

/-- In these commands, only the colour recorders number one to `n` are set up, each with its
own file. -/
def SetsUp (n : ℕ) (ms : List (ℕ × Channel × Command)) : Prop :=
  ∀ i ch path w h fps, (i, ch, .setup path w h fps) ∈ ms →
    0 < i ∧ i ≤ n ∧ ch = .rgb ∧ path = colourFile i

theorem colourFile_inj {i j : ℕ} (hi : i ≤ 2 ^ 31 - 1) (hj : j ≤ 2 ^ 31 - 1)
    (heq : colourFile i = colourFile j) : i = j := by
  have hname := (Channel.append_suffix_inj heq).1
  rw [fragmentFileName_eq_of_int hi, fragmentFileName_eq_of_int hj] at hname
  exact formattedName_injective hname

section AllRecorders
variable {finished : ℕ → Channel → Prop}
  {after : VideoFiles → List (ℕ × Channel × Command) → VideoFiles}
  (hafter : WritesFiles finished after) {w h : ℤ} {n i : ℕ} {frames : List RgbdFrame}
  {ms : List (ℕ × Channel × Command)}

include hafter

theorem WritesFiles.take (hms : SetsUp n ms) (hn : n ≤ 2 ^ 31 - 1) (hi : i ≤ n)
    (hfinished : finished i .rgb)
    (hlog : received i .rgb ms = takeLog w h i frames ++ [.close]) (files : VideoFiles) :
    after files ms (colourFile i) = some (frames.map (·.colorImage)) := by
  rw [takeLog_closed] at hlog
  apply hafter.closed files ms i .rgb (colourFile i) w h 15 _ hfinished hlog
  intro j ch w' h' fps hm
  obtain ⟨-, hjn, hch, hpath⟩ := hms _ _ _ _ _ _ hm
  exact ⟨(colourFile_inj (hi.trans hn) (hjn.trans hn) hpath).symm, hch⟩

theorem WritesFiles.other (hms : SetsUp n ms) {path : String}
    (hpath : ∀ j < n, path ≠ colourFile (j + 1)) (files : VideoFiles) :
    after files ms path = files path := by
  apply hafter.untouched
  intro i ch w h fps hm
  obtain ⟨hpos, hin, -, hown⟩ := hms _ _ _ _ _ _ hm
  have hpred : i = i - 1 + 1 := by omega
  rw [hpred] at hown
  exact hpath (i - 1) (by omega) hown

end AllRecorders

/-! ### At any time of a run -/

/-- The takes of a run, the open one included. -/
def takesOf (L : ℚ) (calls : List Call) : List (Take RgbdFrame) :=
  (Recording.cut L (recordedFrames calls)).elim [] takes

theorem takesOf_frames (L : ℚ) (calls : List Call) :
    (takesOf L calls).flatMap Take.frames = (recordedFrames calls).map Prod.snd := by
  rw [← Recording.cut_frames L, takesOf]
  cases Recording.cut L (recordedFrames calls) with
  | none => rfl
  | some R => simp [takes, Recording.frames]

/-- Every take but the open one is in its file once its recorder has finished, and files of no
take are as before. -/
structure KeepsClosed (finished : ℕ → Channel → Prop) (ts : List (Take RgbdFrame))
    (before after : VideoFiles) : Prop where
  closed : ∀ j (hj : j + 1 < ts.length), finished (j + 1) .rgb →
    after (colourFile (j + 1)) = some (ts[j].frames.map (·.colorImage))
  others : ∀ path, (∀ j < ts.length, path ≠ colourFile (j + 1)) → after path = before path

section Execution
variable (earlyReturn : Bool) (w h : ℤ) (L : ℚ) (calls : List Call)

theorem execute_setsUp :
    SetsUp (takesOf L calls).length (commands (execute earlyReturn w h L calls).2) := by
  have hlength : (takesOf L calls).length =
      (Recording.cut L (recordedFrames calls)).elim 0 (·.done.length + 1) := by
    rw [takesOf]
    cases Recording.cut L (recordedFrames calls) with
    | none => rfl
    | some R => simp [takes]
  intro i ch path w' h' fps hm
  have hmem := mem_commands.mp hm
  obtain ⟨hch, hpath⟩ := execute_setup earlyReturn w h L calls hmem
  have hcreated := mem_createdIn_of_setup hmem
  rw [execute_createdIn, ← hlength, List.mem_range'_1] at hcreated
  exact ⟨by omega, by omega, hch, hpath⟩

/-- At any time, the closed takes are on disk, whether or not their fragments are still
stored. -/
theorem execute_keeps {finished : ℕ → Channel → Prop}
    {after : VideoFiles → List (ℕ × Channel × Command) → VideoFiles}
    (hafter : WritesFiles finished after) (hcount : (takesOf L calls).length ≤ 2 ^ 31 - 1)
    (files : VideoFiles) :
    KeepsClosed finished (takesOf L calls) files
      (after files (commands (execute earlyReturn w h L calls).2)) := by
  have hsetup := execute_setsUp earlyReturn w h L calls
  refine ⟨?_, fun path hpath => hafter.other hsetup hpath files⟩
  intro j hj hfinished
  cases hcut : Recording.cut L (recordedFrames calls) with
  | none => simp [takesOf, hcut] at hj
  | some R =>
    have htakes : takesOf L calls = R.done ++ [R.current] := by simp [takesOf, hcut, takes]
    have hdone : j < R.done.length := by simpa [htakes] using hj
    have hlog := execute_log earlyReturn w h L calls hcut (j + 1)
    rw [log_done w h R hdone] at hlog
    rw [hafter.take hsetup hcount (by omega) hfinished hlog files]
    simp [htakes, List.getElem_append_left hdone]

end Execution

/-! ### Whole lives -/

/-- Every take is in its file once its recorder has finished, and files of no take are as
before. -/
structure SavesTakes (finished : ℕ → Channel → Prop) (ts : List (Take RgbdFrame))
    (before after : VideoFiles) : Prop where
  takes : ∀ j (hj : j < ts.length), finished (j + 1) .rgb →
    after (colourFile (j + 1)) = some (ts[j].frames.map (·.colorImage))
  others : ∀ path, (∀ j < ts.length, path ≠ colourFile (j + 1)) → after path = before path

section Lives
variable {finished finished' : ℕ → Channel → Prop}
  {after after' : VideoFiles → List (ℕ × Channel × Command) → VideoFiles}
  (hafter : WritesFiles finished after) (hafter' : WritesFiles finished' after')

include hafter

theorem LogsOf.saves {w h : ℤ} {R : Recording RgbdFrame} {ms : List (ℕ × Channel × Command)}
    (m : LogsOf w h R ms) (hms : SetsUp (takes R).length ms)
    (hcount : (takes R).length ≤ 2 ^ 31 - 1) (files : VideoFiles) :
    SavesTakes finished (takes R) files (after files ms) := by
  refine ⟨?_, fun path hpath => hafter.other hms hpath files⟩
  intro j hj hfinished
  have hlog := m.received_succ j
  rw [List.getElem?_eq_getElem hj] at hlog
  exact hafter.take hms hcount (by omega) hfinished hlog files

/-- A life of a buffer, its destruction included, saves all of its takes. -/
theorem execute_saves (earlyReturn : Bool) (w h : ℤ) (L : ℚ) (calls : List Call)
    (isRecording : ℕ → ℕ → Channel → Bool)
    (hrec : RecordersStop ((execute earlyReturn w h L calls).2 ++
      (removeAll (execute earlyReturn w h L calls).1.fragments).2) isRecording)
    (hcount : (takesOf L calls).length ≤ 2 ^ 31 - 1) (files : VideoFiles) :
    ∃ tr, (∃ fuel₀, ∀ fuel ≥ fuel₀,
        (execute earlyReturn w h L calls).1.destruct isRecording fuel = some tr) ∧
      SavesTakes finished (takesOf L calls) files
        (after files (commands ((execute earlyReturn w h L calls).2 ++ tr))) := by
  obtain ⟨tr, hends, -, -, hcmd⟩ := destruct_total _
    (fragments_stop earlyReturn w h L calls isRecording hrec)
  refine ⟨tr, hends, ?_⟩
  have hsetup := execute_setsUp earlyReturn w h L calls
  rw [commands_append, hcmd]
  rcases execute_cases earlyReturn w h L calls with ⟨hnil, hnew⟩ | ⟨R, kept, last, hcut, s⟩
  · have htakes : takesOf L calls = [] := by
      rw [takesOf, (Recording.cut_eq_none_iff L _).mpr hnil]
      rfl
    rw [htakes] at hsetup ⊢
    have hidle : (VideoBuffer.new w h L).fragments.filter (·.state = .recording) = [] := rfl
    rw [hnew, hidle, List.map_nil, List.append_nil]
    refine ⟨fun j hj => absurd hj (Nat.not_lt_zero j), ?_⟩
    intro path hpath
    exact hafter.other hsetup hpath files
  · have htakes : takesOf L calls = takes R := by
      rw [takesOf, hcut]
      rfl
    rw [htakes] at hsetup hcount ⊢
    rw [s.running_only, List.map_singleton, s.last_id, s.counter]
    apply (execute_logsOf earlyReturn w h L calls hcut).saves hafter _ hcount
    intro i ch path w' h' fps hm
    apply hsetup i ch path w' h' fps
    simpa using hm

include hafter'

/-- Two lives on one disk, each ending with the destructor.  The second one writes over the
takes of the first that have the same numbers, and keeps the others. -/
theorem two_lives_disk (earlyReturn earlyReturn' : Bool) (w h w' h' : ℤ) (L L' : ℚ)
    (calls calls' : List Call) (isRecording isRecording' : ℕ → ℕ → Channel → Bool)
    (hrec : RecordersStop ((execute earlyReturn w h L calls).2 ++
      (removeAll (execute earlyReturn w h L calls).1.fragments).2) isRecording)
    (hrec' : RecordersStop ((execute earlyReturn' w' h' L' calls').2 ++
      (removeAll (execute earlyReturn' w' h' L' calls').1.fragments).2) isRecording')
    (hcount : (takesOf L calls).length ≤ 2 ^ 31 - 1)
    (hcount' : (takesOf L' calls').length ≤ 2 ^ 31 - 1) (files : VideoFiles) :
    ∃ tr tr', (∃ fuel₀, ∀ fuel ≥ fuel₀,
        (execute earlyReturn w h L calls).1.destruct isRecording fuel = some tr) ∧
      (∃ fuel₀, ∀ fuel ≥ fuel₀,
        (execute earlyReturn' w' h' L' calls').1.destruct isRecording' fuel = some tr') ∧
      let files' := after' (after files (commands ((execute earlyReturn w h L calls).2 ++ tr)))
        (commands ((execute earlyReturn' w' h' L' calls').2 ++ tr'))
      (∀ j (hj : j < (takesOf L' calls').length), finished' (j + 1) .rgb →
          files' (colourFile (j + 1)) =
            some ((takesOf L' calls')[j].frames.map (·.colorImage))) ∧
        (∀ j (hj : j < (takesOf L calls).length), (takesOf L' calls').length ≤ j →
          finished (j + 1) .rgb → files' (colourFile (j + 1)) =
            some ((takesOf L calls)[j].frames.map (·.colorImage))) ∧
        ∀ path, (∀ j < (takesOf L calls).length, path ≠ colourFile (j + 1)) →
          (∀ j < (takesOf L' calls').length, path ≠ colourFile (j + 1)) →
          files' path = files path := by
  obtain ⟨tr, hends, hsaves⟩ :=
    execute_saves hafter earlyReturn w h L calls isRecording hrec hcount files
  obtain ⟨tr', hends', hsaves'⟩ :=
    execute_saves hafter' earlyReturn' w' h' L' calls' isRecording' hrec' hcount'
      (after files (commands ((execute earlyReturn w h L calls).2 ++ tr)))
  refine ⟨tr, tr', hends, hends', hsaves'.takes, ?_, ?_⟩
  · intro j hj hlater hfinished
    rw [hsaves'.others, hsaves.takes j hj hfinished]
    intro i hi heq
    have hid : j + 1 = i + 1 := colourFile_inj (by omega) (by omega) heq
    omega
  · intro path hpath hpath'
    rw [hsaves'.others path hpath', hsaves.others path hpath]

end Lives

def oldFiles : VideoFiles :=
  fun path => if path = "fragments/00003_rgb.mov" then some [⟨1, 1, [7, 7, 7]⟩] else none

/-- A life with two takes, and then one with a single take. -/
theorem second_life_disk :
    ∃ tr tr', (∃ fuel₀, ∀ fuel ≥ fuel₀,
        (execute false 1280 720 15 twoFragments).1.destruct slowRecorder fuel = some tr) ∧
      (∃ fuel₀, ∀ fuel ≥ fuel₀,
        (execute true 1280 720 15 [.addFrame 3 (.pixel 9)]).1.destruct (fun _ _ _ => false) fuel =
          some tr') ∧
      let files' := writtenFiles (writtenFiles oldFiles
          (commands ((execute false 1280 720 15 twoFragments).2 ++ tr)))
        (commands ((execute true 1280 720 15 [.addFrame 3 (.pixel 9)]).2 ++ tr'))
      (∀ j (hj : j < (takesOf 15 [.addFrame 3 (.pixel 9)]).length), True →
          files' (colourFile (j + 1)) =
            some ((takesOf 15 [.addFrame 3 (.pixel 9)])[j].frames.map (·.colorImage))) ∧
        (∀ j (hj : j < (takesOf 15 twoFragments).length),
          (takesOf 15 [.addFrame 3 (.pixel 9)]).length ≤ j → True →
          files' (colourFile (j + 1)) =
            some ((takesOf 15 twoFragments)[j].frames.map (·.colorImage))) ∧
        ∀ path, (∀ j < (takesOf 15 twoFragments).length, path ≠ colourFile (j + 1)) →
          (∀ j < (takesOf 15 [.addFrame 3 (.pixel 9)]).length, path ≠ colourFile (j + 1)) →
          files' path = oldFiles path :=
  two_lives_disk (writtenFiles_writes fun _ _ => True) (writtenFiles_writes fun _ _ => True) false
    true 1280 720 1280 720 15 15 twoFragments [.addFrame 3 (.pixel 9)] slowRecorder
    (fun _ _ _ => false) slowRecorder_stops
    ⟨fun _ _ _ => ⟨0, fun _ _ => rfl⟩, fun _ _ _ _ => rfl⟩ (by decide +kernel)
    (by decide +kernel) oldFiles

end TimeRoom.Takes
