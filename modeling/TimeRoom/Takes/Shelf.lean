import TimeRoom.Takes.Retrieval

/-!
# What a buffer answers over a whole run

A shelf is a recording of which only the takes from some number on are kept.  It
answers a query from the oldest take it has, and loses all but the open one when
it is asked for the oldest window.  Without line 208, the buffer answers every
query of every run as the shelf does.
-/

namespace TimeRoom.Takes
open TimeRoom.Frame Buffer Runs VideoBuffer

namespace Recording
variable {X : Type*}

/-- Start of the window of take number `k`, counted from zero. -/
def start (L : ℚ) (R : Recording X) (k : ℕ) : ℚ := R.origin + k * L

theorem start_succ (L : ℚ) (R : Recording X) (k : ℕ) : R.start L (k + 1) = R.start L k + L := by
  simp only [start]
  push_cast
  ring

theorem done_length_le (L : ℚ) (R : Recording X) (p : ℚ × X) :
    R.done.length ≤ (record L (some R) p).done.length := by
  rw [record]
  split <;> simp

end Recording

/-- A frame with its time, or a time to look back to. -/
inductive Request (X : Type*) where
  | record (t : ℚ) (x : X)
  | ask (timestamp : ℚ)

/-- The takes of a recording from number `oldest` on, counted from zero. -/
structure Shelf (X : Type*) where
  recording : Recording X
  oldest : ℕ
  oldest_le : oldest ≤ recording.done.length

namespace Shelf
variable {X : Type*} (L : ℚ)

def put : Option (Shelf X) → ℚ × X → Shelf X
  | none, p => ⟨Recording.record L none p, 0, Nat.zero_le _⟩
  | some S, p =>
    ⟨Recording.record L (some S.recording) p, S.oldest,
      S.oldest_le.trans (Recording.done_length_le L S.recording p)⟩

/-- The start of the oldest window. -/
def start (S : Shelf X) : ℚ := S.recording.start L S.oldest

/-- The answer is a take, by its number counted from one, and a position in its window. -/
def ask (S : Shelf X) (timestamp : ℚ) : Option (ℕ × ℚ) × Shelf X :=
  if timestamp < S.start L then (none, S)
  else if S.oldest < S.recording.done.length ∧ timestamp < S.start L + L then
    (none, ⟨S.recording, S.recording.done.length, le_rfl⟩)
  else (some (S.oldest + 1, (timestamp - S.start L) / L), S)

variable {L} {S : Shelf X} {timestamp : ℚ}

theorem ask_early (hts : timestamp < S.start L) : S.ask L timestamp = (none, S) := if_pos hts

theorem ask_lose (hts : S.start L ≤ timestamp) (hmore : S.oldest < S.recording.done.length)
    (hend : timestamp < S.start L + L) :
    S.ask L timestamp = (none, ⟨S.recording, S.recording.done.length, le_rfl⟩) := by
  rw [ask, if_neg hts.not_gt, if_pos ⟨hmore, hend⟩]

theorem ask_read (hts : S.start L ≤ timestamp)
    (hend : S.oldest < S.recording.done.length → S.start L + L ≤ timestamp) :
    S.ask L timestamp = (some (S.oldest + 1, (timestamp - S.start L) / L), S) := by
  have hkeep : ¬ (S.oldest < S.recording.done.length ∧ timestamp < S.start L + L) := by
    rintro ⟨hmore, hlt⟩
    exact (hend hmore).not_gt hlt
  rw [ask, if_neg hts.not_gt, if_neg hkeep]

theorem ask_recording (S : Shelf X) (timestamp : ℚ) :
    (S.ask L timestamp).2.recording = S.recording := by
  rw [ask]
  split
  · rfl
  · split <;> rfl

/-- The numbers and window starts of the takes it has. -/
def stamps (L : ℚ) (S : Shelf X) : List (ℕ × ℚ) :=
  (List.range' S.oldest (S.recording.done.length + 1 - S.oldest)).map
    (fun k => (k + 1, S.recording.start L k))

end Shelf

/-- The shelf as a machine that answers queries. -/
def shelf {X : Type*} (L : ℚ) : Machine (Option (Shelf X)) (Request X) (Option (ℕ × ℚ)) where
  step
    | S, .record t x => (some (Shelf.put L S (t, x)), [])
    | none, .ask _ => (none, [none])
    | some S, .ask timestamp => (some (S.ask L timestamp).2, [(S.ask L timestamp).1])

/-- The buffer as its caller sees it: a query is replied to. -/
def conversation (earlyReturn : Bool) : Machine VideoBuffer Call Reply where
  step b
    | .addFrame t x => ((b.addFrame t x).1, [])
    | .getFrame ts => ((b.query earlyReturn ts).2.1, [(b.query earlyReturn ts).1])

theorem conversation_fst (earlyReturn : Bool) (b : VideoBuffer) (calls : List Call) :
    ((conversation earlyReturn).run b calls).1 = ((machine earlyReturn).run b calls).1 := by
  induction calls generalizing b with
  | nil => rfl
  | cons c calls ih => cases c <;> exact ih _

def request : Call → Request RgbdFrame
  | .addFrame t x => .record t x
  | .getFrame ts => .ask ts

/-! ### The stored fragments are the takes on the shelf -/

/-- The buffer stores what is on the shelf. -/
def Shelves (w h : ℤ) (L : ℚ) (b : VideoBuffer) : Option (Shelf RgbdFrame) → Prop
  | none => b = .new w h L
  | some S => ∃ kept last, Stores w h L S.recording b kept last ∧
      S.oldest + kept.length = S.recording.done.length

variable {w h : ℤ} {L : ℚ} {R : Recording RgbdFrame} {S : Shelf RgbdFrame} {b : VideoBuffer}
  {kept : List VideoFragment} {last f g : VideoFragment} {rest : List VideoFragment}

theorem Stores.shelves (s : Stores w h L S.recording b kept last)
    (hlength : S.oldest + b.fragments.length = S.recording.done.length + 1) :
    Shelves w h L b (some S) := by
  refine ⟨kept, last, s, ?_⟩
  rw [s.fragments, List.length_append, List.length_singleton] at hlength
  omega

namespace Shelves

theorem length (hb : Shelves w h L b (some S)) :
    S.oldest + b.fragments.length = S.recording.done.length + 1 := by
  rcases hb with ⟨kept, last, s, hkept⟩
  rw [s.fragments, List.length_append, List.length_singleton]
  omega

theorem stamps (hb : Shelves w h L b (some S)) : b.stamps = S.stamps L := by
  rcases hb with ⟨kept, last, s, hkept⟩
  have hids : b.fragments.map (·.id) = List.range' (S.oldest + 1) (kept.length + 1) := by
    have hfirst : S.recording.done.length + 1 - kept.length = S.oldest + 1 := by omega
    rw [s.fragments, s.ids, hfirst]
  have hstarts : b.stamps = (b.fragments.map (·.id)).map
      (fun i : ℕ => (i, S.recording.origin + ((i : ℚ) - 1) * L)) := by
    simp only [VideoBuffer.stamps, List.map_map]
    apply List.map_congr_left
    intro f hf
    rw [s.fragments] at hf
    simp [VideoFragment.stamp, (s.tracked f hf).start]
  have hcount : S.recording.done.length + 1 - S.oldest = kept.length + 1 := by omega
  rw [hstarts, hids, Shelf.stamps, hcount, List.range'_eq_map_range, List.range'_eq_map_range,
    List.map_map, List.map_map]
  apply List.map_congr_left
  intro k _
  simp only [Function.comp_apply, Recording.start, Prod.mk.injEq]
  constructor
  · omega
  · push_cast
    ring

theorem first (hb : Shelves w h L b (some S)) (hfr : b.fragments = f :: rest) :
    f.id = S.oldest + 1 ∧ f.startTimestamp = S.start L := by
  have hstamps := hb.stamps
  have hcount : S.recording.done.length + 1 - S.oldest =
      S.recording.done.length - S.oldest + 1 := by
    have hle := S.oldest_le
    omega
  rw [VideoBuffer.stamps, hfr, Shelf.stamps, hcount, List.range'_succ, List.map_cons,
    List.map_cons] at hstamps
  have hhead := (List.cons.inj hstamps).1
  simpa [VideoFragment.stamp, Shelf.start] using hhead

theorem second_iff (hb : Shelves w h L b (some S)) (hfr : b.fragments = f :: rest) :
    rest ≠ [] ↔ S.oldest < S.recording.done.length := by
  have hlength := hb.length
  rw [hfr, List.length_cons] at hlength
  rw [← List.length_pos_iff]
  omega

theorem second (hb : Shelves w h L b (some S)) (hfr : b.fragments = f :: g :: rest) :
    g.startTimestamp = S.start L + L := by
  have hfirst := hb.first hfr
  rcases hb with ⟨kept, last, s, -⟩
  have hsteps := s.steps
  rw [hfr, List.isChain_cons_cons] at hsteps
  rw [hsteps.1, hfirst.2]

theorem addFrame {S : Option (Shelf RgbdFrame)} (hb : Shelves w h L b S) (t : ℚ) (x : RgbdFrame) :
    Shelves w h L (b.addFrame t x).1 (some (Shelf.put L S (t, x))) := by
  cases S with
  | none =>
    obtain rfl : b = .new w h L := hb
    exact ⟨[], _, (Stores.addFrame_nil w h L t x).1, rfl⟩
  | some S =>
    rcases hb with ⟨kept, last, s, hkept⟩
    by_cases ht : S.recording.Exceeded L t
    · have hdone : (Recording.record L (some S.recording) (t, x)).done.length =
          S.recording.done.length + 1 := by
        rw [Recording.record_next ht, List.length_append, List.length_singleton]
      refine ⟨_, _, (s.addFrame_next ht x).1, ?_⟩
      simp only [Shelf.put, hdone, List.length_append, List.length_singleton]
      omega
    · have hdone : (Recording.record L (some S.recording) (t, x)).done.length =
          S.recording.done.length := by
        rw [Recording.record_same ht]
      refine ⟨_, _, (s.addFrame_same ht x).1, ?_⟩
      simp only [Shelf.put, hdone]
      exact hkept

/-- One query: the same answer, and the same takes afterwards. -/
theorem getFrame (hb : Shelves w h L b (some S)) (ts : ℚ) :
    Shelves w h L (b.getFrame ts).2.1 (some (S.ask L ts).2) ∧
      (b.getFrame ts).1.source = (S.ask L ts).1 := by
  have hshelves := hb
  rcases hb with ⟨kept, last, s, hkept⟩
  have hlength := hshelves.length
  rcases s.getFrame ts with ⟨kept', last', s', -, -⟩
  rcases s.getFrame_ways ts with ⟨f, rest, hfr, hways⟩
  have hfirst := hshelves.first hfr
  rw [hfr, List.length_cons] at hlength
  rcases hways with ⟨hts, hstep⟩ | ⟨hts, hnext, hstep⟩ | ⟨hts, ⟨g, hg, hgap⟩, hstep⟩
  · rw [hfirst.2] at hts
    rw [Shelf.ask_early hts]
    constructor
    · apply s'.shelves
      rw [hstep]
      simpa using hlength
    · rw [hstep]
      rfl
  · have hend (hmore : S.oldest < S.recording.done.length) : S.start L + L ≤ ts := by
      cases rest with
      | nil => exact absurd rfl ((hshelves.second_iff hfr).mpr hmore)
      | cons g rest =>
        rw [← hshelves.second hfr]
        exact hnext g rfl
    rw [hfirst.2] at hts
    rw [Shelf.ask_read hts hend]
    constructor
    · apply s'.shelves
      rw [hstep]
      simpa using hlength
    · rw [hstep]
      simp [VideoFragment.getFrame, Reply.source, VideoPlayer.setPosition, hfirst,
        s.fragmentLength]
  · cases rest with
    | nil => simp at hg
    | cons g' rest =>
      obtain rfl : g' = g := by simpa using hg
      have hmore := (hshelves.second_iff hfr).mp (by simp)
      rw [hfirst.2] at hts
      rw [hshelves.second hfr] at hgap
      rw [Shelf.ask_lose hts hmore hgap]
      constructor
      · apply Stores.shelves (S := ⟨S.recording, S.recording.done.length, le_rfl⟩) s'
        rw [hstep]
        simp
      · rw [hstep]
        rfl

end Shelves

/-- The buffer without line 208 simulates the shelf, answer by answer. -/
def shelving (w h : ℤ) (L : ℚ) :
    Simulation (conversation false) (shelf L) (some ∘ request) (some ∘ Reply.source) where
  rel := Shelves w h L
  visible b S c q hrel hc := by
    obtain rfl : request c = q := Option.some_inj.mp hc
    cases c with
    | addFrame t x => exact ⟨hrel.addFrame t x, rfl⟩
    | getFrame ts =>
      cases S with
      | none =>
        obtain rfl : b = .new w h L := hrel
        exact ⟨rfl, rfl⟩
      | some S =>
        have hstep := hrel.getFrame ts
        exact ⟨hstep.1, by simp [conversation, query, shelf, request, hstep.2]⟩
  silent b S c hrel hc := by cases hc

section Runs
variable (w h : ℤ) (L : ℚ) (calls : List Call)

def shelfAfter (L : ℚ) (calls : List Call) : Option (Shelf RgbdFrame) :=
  ((shelf L).run none (calls.map request)).1

theorem shelfAfter_recording :
    (shelfAfter L calls).map Shelf.recording = Recording.cut L (recordedFrames calls) := by
  induction calls using List.reverseRecOn with
  | nil => rfl
  | append_singleton calls c ih =>
    rw [shelfAfter, List.map_append, List.map_singleton, Machine.run_concat, ← shelfAfter,
      recordedFrames, List.filterMap_append, ← recordedFrames]
    cases c with
    | addFrame t x =>
      have hsent : [Call.addFrame t x].filterMap Call.recorded? = [(t, x)] := rfl
      rw [hsent, Recording.cut_concat, ← ih]
      cases shelfAfter L calls <;> rfl
    | getFrame ts =>
      have hsent : [Call.getFrame ts].filterMap Call.recorded? = [] := rfl
      rw [hsent, List.append_nil, ← ih]
      cases shelfAfter L calls with
      | none => rfl
      | some S => simp [shelf, request, Shelf.ask_recording]

theorem conversation_shelf :
    Shelves w h L ((conversation false).run (.new w h L) calls).1 (shelfAfter L calls) ∧
      ((conversation false).run (.new w h L) calls).2.map Reply.source =
        ((shelf L).run none (calls.map request)).2 := by
  have hrun := (shelving w h L).run (.new w h L) none rfl calls
  rwa [List.filterMap_eq_map, List.filterMap_eq_map] at hrun

theorem execute_shelves : Shelves w h L (execute false w h L calls).1 (shelfAfter L calls) := by
  rw [execute, ← conversation_fst]
  exact (conversation_shelf w h L calls).1

/-- Over every run, the replies come from the takes and positions that the shelf answers, and
the fragments left in the end are the takes on it. -/
theorem execute_answers :
    ((conversation false).run (.new w h L) calls).2.map Reply.source =
        ((shelf L).run none (calls.map request)).2 ∧
      (execute false w h L calls).1.stamps = (shelfAfter L calls).elim [] (Shelf.stamps L) := by
  have hshelves := execute_shelves w h L calls
  refine ⟨(conversation_shelf w h L calls).2, ?_⟩
  cases hS : shelfAfter L calls with
  | none =>
    rw [hS] at hshelves
    rw [show (execute false w h L calls).1 = .new w h L from hshelves]
    rfl
  | some S =>
    rw [hS] at hshelves
    exact hshelves.stamps

end Runs

/-! ### Asking again -/

/-- A query with this timestamp gives this reply, changes nothing, and opens and deletes
nothing. -/
structure Settled (b : VideoBuffer) (timestamp : ℚ) (reply : Reply) : Prop where
  reply : (b.getFrame timestamp).1 = reply
  buffer : (b.getFrame timestamp).2.1 = b
  events : ∀ e ∈ (b.getFrame timestamp).2.2, ∃ i state, e = .called i .getFrame state

theorem prepare_state (f : VideoFragment) : f.prepare.1.state ≠ .onDisk := by
  rw [VideoFragment.prepare]
  split
  · simp [VideoFragment.loadFromDisk]
  · assumption

section Settled
variable {timestamp : ℚ} (hdisk : f.state ≠ .onDisk)

include hdisk

theorem settled_early (hb : b.fragments = f :: rest) (hts : timestamp < f.startTimestamp) :
    Settled b timestamp (.blank b.videoWidth b.videoHeight) := by
  have hprepare : f.prepare = (f, []) := if_neg hdisk
  have hsame : ({ b with fragments := f :: rest } : VideoBuffer) = b := by rw [← hb]
  have hstep := getFrame_early hb hts (fun h => absurd h hdisk)
  rw [hprepare, hsame] at hstep
  constructor
  · rw [hstep]
  · rw [hstep]
  · rw [hstep]
    simp

theorem settled_read (hb : b.fragments = (f.getFrame ((timestamp - f.startTimestamp) /
      b.fragmentLength)).2.1 :: rest) (hts : f.startTimestamp ≤ timestamp)
    (hnext : ∀ g ∈ rest.head?, g.startTimestamp ≤ timestamp) :
    Settled b timestamp (f.getFrame ((timestamp - f.startTimestamp) / b.fragmentLength)).1 := by
  have hstep := getFrame_read hb hts.not_gt (fun g hg => (hnext g hg).not_gt)
  have hprepare : (f.getFrame ((timestamp - f.startTimestamp) / b.fragmentLength)).2.1.prepare =
      ((f.getFrame ((timestamp - f.startTimestamp) / b.fragmentLength)).2.1, []) := if_neg hdisk
  rw [hprepare] at hstep
  constructor
  · rw [hstep]
    rfl
  · rw [hstep]
    exact congrArg (fun fragments => { b with fragments := fragments }) hb.symm
  · rw [hstep]
    intro e he
    exact ⟨_, _, List.mem_singleton.mp he⟩

end Settled

theorem Stores.settled (s : Stores w h L R b kept last) (timestamp : ℚ) :
    Settled (b.getFrame timestamp).2.1 timestamp (b.getFrame timestamp).1 := by
  obtain ⟨f, rest, hfr, hways⟩ := s.getFrame_ways timestamp
  rcases hways with ⟨hts, hstep⟩ | ⟨hts, hnext, hstep⟩ | ⟨hts, ⟨g, hg, hgap⟩, hstep⟩
  · rw [hstep]
    exact settled_early (prepare_state f) rfl (by rwa [VideoFragment.prepare_start])
  · rw [hstep]
    have hstart : f.prepare.1.startTimestamp = f.startTimestamp := f.prepare_start
    rw [← hstart]
    exact settled_read (prepare_state f) rfl (by rwa [hstart]) hnext
  · rw [hstep]
    obtain ⟨rest', rfl⟩ : ∃ rest', rest = g :: rest' := by
      cases rest with
      | nil => simp at hg
      | cons g' rest' => exact ⟨rest', by rw [Option.some_inj.mp hg]⟩
    have horder := s.inOrder_of_lt hfr (lt_of_le_of_lt hts hgap)
    have hlast : last ∈ g :: rest' := by
      have hget := congrArg List.getLast? (s.fragments.symm.trans hfr)
      rw [List.getLast?_concat, List.getLast?_cons_cons] at hget
      exact List.mem_of_getLast? hget.symm
    have hlate : timestamp < last.startTimestamp := by
      rw [hfr, InOrder, List.pairwise_cons, List.pairwise_cons] at horder
      rcases List.mem_cons.mp hlast with rfl | hmem
      · exact hgap
      · exact hgap.trans (horder.2.1 last hmem)
    exact settled_early (by simp [s.running]) rfl hlate

/-- At any time of any run, asking twice for the same timestamp is asking once. -/
theorem execute_repeats (w h : ℤ) (L : ℚ) (calls : List Call) (timestamp : ℚ) :
    Settled ((execute false w h L calls).1.getFrame timestamp).2.1 timestamp
      ((execute false w h L calls).1.getFrame timestamp).1 := by
  rcases execute_cases false w h L calls with ⟨-, hnew⟩ | ⟨R, kept, last, -, s⟩
  · rw [hnew]
    exact ⟨rfl, rfl, by simp [getFrame, VideoBuffer.new]⟩
  · exact s.settled timestamp

end TimeRoom.Takes
