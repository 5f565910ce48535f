import TimeRoom.Buffer.VideoBuffer

/-!
# What each operation does, said once

`addFrame` opens the first fragment, rolls over to a new one, or extends the
last one.  `getFrame` drops a possibly empty front part of the vector, then
serves the call from the fragment that is first by then, leaving the rest alone.
Later proofs cite these statements and do not unfold the operations.
-/

namespace TimeRoom.Buffer
open TimeRoom.Frame

/-- What the constructor was given; no method changes it. -/
def VideoFragment.created (f : VideoFragment) : ℕ × ℚ × String × ℤ × ℤ :=
  (f.id, f.startTimestamp, f.filename, f.width, f.height)

def VideoFragment.openFiles (f : VideoFragment) : Option String × Option String :=
  (f.rgbPlayer.file, f.depthPlayer.file)

/-- The files that `loadFromDisk` opens. -/
def VideoFragment.ownFiles (f : VideoFragment) : Option String × Option String :=
  (some (f.filename ++ "_rgb.mov"), some (f.filename ++ "_depth.mov"))

namespace VideoBuffer

/-- The fragment a buffer creates next, after its first frame. -/
def opened (b : VideoBuffer) (startTimestamp : ℚ) : VideoFragment :=
  { id := b.fileCounter + 1, startTimestamp, filename := fragmentFileName (b.fileCounter + 1)
    width := b.videoWidth, height := b.videoHeight, state := .recording
    rgbPlayer := {}, depthPlayer := {} }

/-- The commands that open a fragment with its first frame. -/
def opening (b : VideoBuffer) (frame : RgbdFrame) : List Event :=
  [.command (b.fileCounter + 1) .rgb
      (.setup (fragmentFileName (b.fileCounter + 1) ++ "_rgb.mov") b.videoWidth b.videoHeight 15),
    .command (b.fileCounter + 1) .rgb .start,
    .command (b.fileCounter + 1) .rgb (.addFrame frame.colorImage)]

@[simp] theorem onLast_concat (b : VideoBuffer) (kept : List VideoFragment) (last : VideoFragment)
    (hb : b.fragments = kept ++ [last]) (method : VideoFragment → VideoFragment × List Event) :
    b.onLast method = ({ b with fragments := kept ++ [(method last).1] }, (method last).2) := by
  simp [onLast, hb]

theorem addNewFragment_then (b : VideoBuffer) (start : ℚ) (frame : RgbdFrame) :
    (b.addNewFragment start).1.onLast (·.addFrame frame) =
        ({ b with fileCounter := b.fileCounter + 1, fragments := b.fragments ++ [b.opened start] },
          (b.opening frame).tail) ∧
      (b.addNewFragment start).2 = [(b.opening frame).head (by simp [opening])] := by
  refine ⟨?_, rfl⟩
  rw [onLast_concat _ b.fragments _ rfl]
  rfl

theorem addFrame_nil (b : VideoBuffer) (hb : b.fragments = []) (t : ℚ) (x : RgbdFrame) :
    b.addFrame t x =
      ({ b with fileCounter := b.fileCounter + 1, fragments := [b.opened t] }, b.opening x) := by
  obtain ⟨hnew, hsetup⟩ := addNewFragment_then b t x
  simp only [addFrame, hb, List.getLast?_nil, hnew, hsetup]
  rfl

variable {b : VideoBuffer} {kept : List VideoFragment} {last : VideoFragment}

theorem addFrame_next (hb : b.fragments = kept ++ [last]) {t : ℚ}
    (ht : t - last.startTimestamp ≥ b.fragmentLength) (x : RgbdFrame) :
    b.addFrame t x =
      ({ b with
          fileCounter := b.fileCounter + 1
          fragments := kept ++
            [last.saveOnDisk.1, b.opened (last.startTimestamp + b.fragmentLength)] },
        last.saveOnDisk.2 ++ b.opening x) := by
  obtain ⟨hnew, hsetup⟩ := addNewFragment_then
    { b with fragments := kept ++ [last.saveOnDisk.1] } (last.startTimestamp + b.fragmentLength) x
  simp only [addFrame, hb, List.getLast?_concat, if_pos ht,
    onLast_concat b kept last hb, hnew, hsetup, List.append_assoc]
  rfl

theorem addFrame_same (hb : b.fragments = kept ++ [last]) {t : ℚ}
    (ht : ¬ t - last.startTimestamp ≥ b.fragmentLength) (x : RgbdFrame) :
    b.addFrame t x =
      ({ b with fragments := kept ++ [(last.addFrame x).1] }, (last.addFrame x).2) := by
  simp only [addFrame, hb, List.getLast?_concat, if_neg ht, onLast_concat b kept last hb]

/-! ### Playback -/

def discard (f : VideoFragment) : List Event := f.removeFromDisk.2 ++ [.deleted f.id]

/-- The loop removes a front part and never the whole. -/
theorem evict_eq (timestamp : ℚ) (f : VideoFragment) (rest : List VideoFragment) :
    ∃ dropped g others, f :: rest = dropped ++ g :: others ∧
      evict timestamp (f :: rest) = (g :: others, dropped.flatMap discard) := by
  induction rest generalizing f with
  | nil => exact ⟨[], f, [], rfl, rfl⟩
  | cons g rest ih =>
    by_cases hg : g.startTimestamp > timestamp
    · obtain ⟨dropped, k, others, hsplit, hev⟩ := ih g
      refine ⟨f :: dropped, k, others, by rw [hsplit]; rfl, ?_⟩
      simp [evict, if_pos hg, hev, discard]
    · exact ⟨[], f, g :: rest, rfl, by simp [evict, if_neg hg]⟩

/-- How `getFrame` leaves the fragment that is first when it is served, and the
events on it. -/
inductive Serves (f : VideoFragment) : VideoFragment → List Event → Prop
  | skip : Serves f f []
  | load (h : f.state = .onDisk) : Serves f f.loadFromDisk.1 f.loadFromDisk.2
  | play (position : ℚ) (h : f.state ≠ .onDisk) :
      Serves f (f.getFrame position).2.1 (f.getFrame position).2.2
  | loadPlay (position : ℚ) (h : f.state = .onDisk) :
      Serves f (f.loadFromDisk.1.getFrame position).2.1
        (f.loadFromDisk.2 ++ (f.loadFromDisk.1.getFrame position).2.2)

namespace Serves
variable {f f' : VideoFragment} {tr : List Event}

theorem created (h : Serves f f' tr) : f'.created = f.created := by
  cases h <;> rfl

theorem state (h : Serves f f' tr) :
    f'.state = f.state ∨ f.state = .onDisk ∧ f'.state = .inMemory := by
  cases h with
  | skip => exact .inl rfl
  | load h => exact .inr ⟨h, rfl⟩
  | play _ _ => exact .inl rfl
  | loadPlay _ h => exact .inr ⟨h, rfl⟩

theorem inMemory (h : Serves f f' tr) (hstate : f'.state = .inMemory) :
    f.state = .inMemory ∧ f'.openFiles = f.openFiles ∨
      .called f.id .loadFromDisk f.state ∈ tr ∧ f'.openFiles = f'.ownFiles := by
  cases h with
  | skip => exact Or.inl ⟨hstate, rfl⟩
  | load h => exact Or.inr ⟨List.mem_cons_self, rfl⟩
  | play _ _ => exact Or.inl ⟨hstate, rfl⟩
  | loadPlay _ h => exact Or.inr ⟨List.mem_append_left _ List.mem_cons_self, rfl⟩

theorem unsaved (h : Serves f f' tr) (hstate : f'.state ≠ .onDisk ∧ f'.state ≠ .inMemory) :
    f.state = f'.state ∧ f'.openFiles = f.openFiles := by
  cases h with
  | skip => exact ⟨rfl, rfl⟩
  | load _ => exact absurd rfl hstate.2
  | play _ _ => exact ⟨rfl, rfl⟩
  | loadPlay _ _ => exact absurd rfl hstate.2

theorem commands (h : Serves f f' tr) : commands tr = [] := by
  cases h <;> rfl

/-- A load reads both files of the fragment, and finds it on disk. -/
theorem mem (h : Serves f f' tr) {e : Event} (he : e ∈ tr) :
    f.state = .onDisk ∧ (e = .called f.id .loadFromDisk .onDisk ∨
        e = .load f.id .rgb (f.filename ++ "_rgb.mov") ∨
        e = .load f.id .depth (f.filename ++ "_depth.mov")) ∨
      e = .called f.id .getFrame f'.state := by
  cases h with
  | skip => simp at he
  | load h =>
    simp only [VideoFragment.loadFromDisk, h, List.mem_cons, List.not_mem_nil, or_false] at he
    exact .inl ⟨h, he⟩
  | play position h =>
    simp only [VideoFragment.getFrame, List.mem_singleton] at he
    exact .inr he
  | loadPlay position h =>
    simp only [VideoFragment.loadFromDisk, VideoFragment.getFrame, h, List.mem_append,
      List.mem_cons, List.not_mem_nil, or_false] at he
    exact he.imp (fun he => ⟨h, he⟩) id

end Serves

theorem mem_discard {dropped : List VideoFragment} {e : Event}
    (he : e ∈ dropped.flatMap discard) : ∃ f ∈ dropped, e = .called f.id .removeFromDisk f.state ∨
      e = .command f.id .rgb .close ∨ e = .deleted f.id := by
  have hmem := List.mem_flatMap.mp he
  rcases hmem with ⟨f, hf, he⟩
  refine ⟨f, hf, ?_⟩
  simp only [discard, VideoFragment.removeFromDisk, VideoFragment.stopRecording] at he
  split at he
  all_goals
    simp only [List.cons_append, List.nil_append, List.mem_cons, List.not_mem_nil, or_false] at he
    tauto

theorem discard_eq {f : VideoFragment} (h : f.state ≠ .recording) :
    discard f = [.called f.id .removeFromDisk f.state, .deleted f.id] := by
  simp [discard, VideoFragment.removeFromDisk, h]

theorem commands_discard {dropped : List VideoFragment}
    (h : ∀ f ∈ dropped, f.state ≠ .recording) : commands (dropped.flatMap discard) = [] := by
  induction dropped with
  | nil => rfl
  | cons f dropped ih =>
    rw [List.flatMap_cons, commands_append, discard_eq (h f List.mem_cons_self),
      ih (fun g hg => h g (List.mem_cons_of_mem f hg))]
    rfl

/-- Everything a call of `getFrame` on a nonempty buffer can do to it. -/
theorem getFrame_cases (b : VideoBuffer) (hb : b.fragments ≠ []) (timestamp : ℚ) :
    ∃ dropped f others f' tr, b.fragments = dropped ++ f :: others ∧ Serves f f' tr ∧
      (b.getFrame timestamp).2 =
        ({ b with fragments := f' :: others }, dropped.flatMap discard ++ tr) := by
  obtain ⟨first, rest, hfr⟩ := List.exists_cons_of_ne_nil hb
  have hsame : ({ b with fragments := first :: rest } : VideoBuffer) = b := by rw [← hfr]
  by_cases hearly : timestamp < first.startTimestamp
  · by_cases hload : rest ≠ [] ∧ first.state = .onDisk
    · refine ⟨[], first, rest, _, _, hfr, .load hload.2, ?_⟩
      simp [getFrame, hfr, hearly, hload]
    · refine ⟨[], first, rest, _, _, hfr, .skip, ?_⟩
      simp only [getFrame, hfr, if_pos hearly, if_neg hload, hsame]
      rfl
  · obtain ⟨dropped, g, others, hsplit, hev⟩ := evict_eq timestamp first rest
    have hstart : g.loadFromDisk.1.startTimestamp = g.startTimestamp := rfl
    by_cases hdisk : g.state = .onDisk
    · by_cases hlate : timestamp < g.startTimestamp
      · refine ⟨dropped, g, others, _, _, hfr.trans hsplit, .load hdisk, ?_⟩
        simp [getFrame, hfr, hearly, hev, hdisk, hstart, hlate]
      · refine ⟨dropped, g, others, _, _, hfr.trans hsplit,
          .loadPlay ((timestamp - g.startTimestamp) / b.fragmentLength) hdisk, ?_⟩
        simp [getFrame, hfr, hearly, hev, hdisk, hstart, hlate]
    · by_cases hlate : timestamp < g.startTimestamp
      · refine ⟨dropped, g, others, _, _, hfr.trans hsplit, .skip, ?_⟩
        simp [getFrame, hfr, hearly, hev, hdisk, hlate]
      · refine ⟨dropped, g, others, _, _, hfr.trans hsplit,
          .play ((timestamp - g.startTimestamp) / b.fragmentLength) hdisk, ?_⟩
        simp [getFrame, hfr, hearly, hev, hdisk, hlate]

end VideoBuffer

end TimeRoom.Buffer
