import TimeRoom.Buffer.Retrieval
import TimeRoom.Takes.Lifecycle

/-!
# Retrieval of past frames

Which fragment a query should read, and when it does.  The loop of lines 216-220
compares the wrong way round: a timestamp in the first fragment's window evicts
every fragment but the last, and a later one evicts nothing, so that the oldest
fragment is read beyond its end.  Only a buffer with one fragment answers right.

A blank frame takes its size from the buffer.  A frame read from a fragment
allocates its images with two integers that its constructor never writes, so its
size is whatever the memory held.
-/

namespace TimeRoom.Takes
open TimeRoom.Frame Buffer Runs VideoBuffer Recording

variable {w h : ℤ} {L : ℚ} {R : Recording RgbdFrame} {b : VideoBuffer}
  {kept : List VideoFragment} {last : VideoFragment}

namespace Stores

theorem inOrder (hL : 0 < L) (s : Stores w h L R b kept last) : InOrder b.fragments := by
  have hsteps : (b.fragments.map (·.startTimestamp)).IsChain (· < ·) := by
    rw [List.isChain_map]
    refine s.steps.imp ?_
    intro f g hfg
    rw [hfg]
    linarith
  rw [List.isChain_iff_pairwise, List.pairwise_map] at hsteps
  exact hsteps

theorem inOrder_of_lt (s : Stores w h L R b kept last) {f g : VideoFragment}
    {rest : List VideoFragment} (hb : b.fragments = f :: g :: rest)
    (hfg : f.startTimestamp < g.startTimestamp) : InOrder b.fragments := by
  have hsteps := s.steps
  rw [hb, List.isChain_cons_cons] at hsteps
  apply s.inOrder
  linarith [hsteps.1]

theorem first_sealed (s : Stores w h L R b kept last) {f g : VideoFragment}
    {rest : List VideoFragment} (hb : b.fragments = f :: g :: rest) : Sealed f := by
  apply s.kept_sealed
  have hsplit := s.fragments.symm.trans hb
  cases kept with
  | nil => simp at hsplit
  | cons k kept =>
    obtain ⟨rfl, -⟩ := List.cons.inj hsplit
    exact List.mem_cons_self

theorem only_running (s : Stores w h L R b kept last) {f : VideoFragment}
    (hb : b.fragments = [f]) : f.state = .recording := by
  have hlast := congrArg List.getLast? (s.fragments.symm.trans hb)
  rw [List.getLast?_concat, List.getLast?_singleton, Option.some_inj] at hlast
  rw [← hlast, s.running]

theorem not_alone (s : Stores w h L R b kept last) {f : VideoFragment}
    {rest : List VideoFragment} (hb : b.fragments = f :: rest) (hdisk : f.state = .onDisk) :
    rest ≠ [] := by
  rintro rfl
  have hrunning := s.only_running hb
  rw [hdisk] at hrunning
  cases hrunning

/-- The three ways of a query on a recorded buffer: too early, read from the first
fragment, or in the first fragment's window with others behind it. -/
theorem getFrame_ways (s : Stores w h L R b kept last) (timestamp : ℚ) :
    ∃ f rest, b.fragments = f :: rest ∧
      ((timestamp < f.startTimestamp ∧
          b.getFrame timestamp = (.blank b.videoWidth b.videoHeight,
            { b with fragments := f.prepare.1 :: rest }, f.prepare.2)) ∨
        (f.startTimestamp ≤ timestamp ∧ (∀ g ∈ rest.head?, g.startTimestamp ≤ timestamp) ∧
          b.getFrame timestamp =
            let p := f.prepare.1.getFrame ((timestamp - f.startTimestamp) / b.fragmentLength)
            (p.1, { b with fragments := p.2.1 :: rest }, f.prepare.2 ++ p.2.2)) ∨
        (f.startTimestamp ≤ timestamp ∧ (∃ g ∈ rest.head?, timestamp < g.startTimestamp) ∧
          b.getFrame timestamp = (.blank b.videoWidth b.videoHeight,
            { b with fragments := [last] },
            b.fragments.dropLast.flatMap VideoBuffer.discard))) := by
  obtain ⟨f, rest, hb⟩ := List.exists_cons_of_ne_nil (l := b.fragments) (by simp [s.fragments])
  refine ⟨f, rest, hb, ?_⟩
  by_cases hts : timestamp < f.startTimestamp
  · left
    exact ⟨hts, getFrame_early hb hts (fun hdisk => s.not_alone hb hdisk)⟩
  · right
    by_cases hnext : ∀ g ∈ rest.head?, g.startTimestamp ≤ timestamp
    · left
      exact ⟨not_lt.mp hts, hnext, getFrame_read hb hts (fun g hg => (hnext g hg).not_gt)⟩
    · right
      cases rest with
      | nil => simp at hnext
      | cons g rest =>
        have hgap : timestamp < g.startTimestamp := by simpa using hnext
        obtain ⟨k, hk, hstep⟩ := getFrame_gap hb
          (s.inOrder_of_lt hb (lt_of_le_of_lt (not_lt.mp hts) hgap)) hts hgap
        have hlast : k = last := by
          have hget := congrArg List.getLast? (s.fragments.symm.trans hb)
          rw [List.getLast?_concat, List.getLast?_cons_cons, hk, Option.some_inj] at hget
          exact hget.symm
        have hprep : last.prepare = (last, []) := by simp [VideoFragment.prepare, s.running]
        rw [hlast, hprep, List.append_nil, ← hb] at hstep
        exact ⟨not_lt.mp hts, ⟨g, rfl, hgap⟩, hstep⟩

end Stores

theorem ask_factors (w h : ℤ) (L : ℚ) (R : Option (Recording RgbdFrame)) :
    Factors (Refines w h L · R) stamps ask (retrieve L) := by
  have hask (b : VideoBuffer) (timestamp : ℚ) (hb : Refines w h L b R) :
      (b.ask timestamp).1 = (retrieve L b.stamps timestamp).1 ∧
        (b.ask timestamp).2.stamps = (retrieve L b.stamps timestamp).2 := by
    cases R with
    | none =>
      obtain rfl : b = .new w h L := hb
      exact ⟨rfl, rfl⟩
    | some R =>
      obtain ⟨kept, last, s⟩ := hb
      have hstamps := b.ask_stamps (fun f g rest => s.inOrder_of_lt)
        (fun f rest => s.not_alone) timestamp
      rwa [s.fragmentLength] at hstamps
  constructor
  · intro b timestamp hb
    exact ((refinement false w h L).silent b R (.getFrame timestamp) hb rfl).1
  · intro b timestamp hb
    exact (hask b timestamp hb).1
  · intro b timestamp hb
    exact (hask b timestamp hb).2

/-! ### The covering fragment -/

/-- The query keeps the fragment that covers the timestamp and all later ones, and reads
that fragment at the right position. -/
def Retrieves (b : VideoBuffer) (timestamp : ℚ) : Prop :=
  ∃ older requested newer, b.fragments = older ++ requested :: newer ∧
    requested.startTimestamp ≤ timestamp ∧ (∀ f ∈ newer, timestamp < f.startTimestamp) ∧
    (b.getFrame timestamp).2.1.fragments.map (·.created) =
      (requested :: newer).map (·.created) ∧
    (b.getFrame timestamp).1.source =
      some (requested.id, (timestamp - requested.startTimestamp) / b.fragmentLength) ∧
    0 ≤ (timestamp - requested.startTimestamp) / b.fragmentLength ∧
    (timestamp - requested.startTimestamp) / b.fragmentLength < 1

theorem Stores.retrieves_one (hL : 0 < L) (s : Stores w h L R b [] last) {timestamp : ℚ}
    (hfrom : last.startTimestamp ≤ timestamp) (hto : timestamp < last.startTimestamp + L) :
    Retrieves b timestamp := by
  have hb : b.fragments = [last] := s.fragments
  have hprep : last.prepare = (last, []) := by simp [VideoFragment.prepare, s.running]
  have hstep := getFrame_read hb hfrom.not_gt (by simp)
  rw [hprep] at hstep
  refine ⟨[], last, [], hb, hfrom, by simp, ?_, ?_, ?_, ?_⟩
  · rw [hstep]
    rfl
  · rw [hstep]
    rfl
  · rw [s.fragmentLength]
    exact div_nonneg (by linarith) hL.le
  · rw [s.fragmentLength, div_lt_one hL]
    linarith

theorem Stores.not_retrieves (s : Stores w h L R b kept last)
    {f g : VideoFragment} {rest : List VideoFragment} (hb : b.fragments = f :: g :: rest)
    {timestamp : ℚ} (hfrom : f.startTimestamp ≤ timestamp) : ¬ Retrieves b timestamp := by
  rintro ⟨older, requested, newer, hsplit, hstart, hnewer, hkept, hsource, -⟩
  obtain ⟨f', rest', hb', hways⟩ := s.getFrame_ways timestamp
  obtain ⟨rfl, rfl⟩ := List.cons.inj (hb.symm.trans hb')
  rcases hways with ⟨hts, -⟩ | ⟨-, hnext, hstep⟩ | ⟨-, -, hstep⟩
  · exact hts.not_ge hfrom
  · rw [hb] at hsplit
    rw [hstep] at hkept
    -- nothing was evicted, so the requested fragment would have to be the first
    have hlen : (f :: g :: rest).length = (requested :: newer).length := by
      simpa using congrArg List.length hkept
    have holder : older = [] := by
      have hall := congrArg List.length hsplit
      rw [List.length_append, hlen] at hall
      exact List.length_eq_zero_iff.mp (by omega)
    subst holder
    cases hsplit
    exact (hnewer g List.mem_cons_self).not_ge (hnext g rfl)
  · rw [hstep] at hsource
    cases hsource

/-- Exactly the buffers with a single fragment retrieve. -/
theorem retrieves_iff (w h : ℤ) (L : ℚ) (hL : 0 < L) (calls : List Call) (timestamp : ℚ)
    (first last : VideoFragment)
    (hfirst : (execute false w h L calls).1.fragments.head? = some first)
    (hlast : (execute false w h L calls).1.fragments.getLast? = some last)
    (hfrom : first.startTimestamp ≤ timestamp) (hto : timestamp < last.startTimestamp + L) :
    Retrieves (execute false w h L calls).1 timestamp ↔
      (execute false w h L calls).1.fragments.length = 1 := by
  rcases execute_cases false w h L calls with ⟨-, hnew⟩ | ⟨R, kept, last', -, s⟩
  · rw [hnew] at hfirst
    cases hfirst
  · obtain rfl : last' = last := by
      rw [s.fragments, List.getLast?_concat] at hlast
      exact Option.some_inj.mp hlast
    cases hb : (execute false w h L calls).1.fragments with
    | nil => simp [hb] at hfirst
    | cons f rest =>
      obtain rfl : f = first := by simpa [hb] using hfirst
      cases rest with
      | nil =>
        have hkept : kept = [] := by
          have hlen := congrArg List.length (s.fragments.symm.trans hb)
          exact List.length_eq_zero_iff.mp (by simpa using hlen)
        subst hkept
        obtain rfl : last' = f := by simpa [hb] using s.fragments.symm
        simp [s.retrieves_one hL hfrom hto]
      | cons g rest => simp [s.not_retrieves hb hfrom]

/-- Halfway through the only fragment of a recording. -/
theorem only_fragment_retrieves :
    Retrieves (execute false 1280 720 15
        [.addFrame 0 (.pixel 1), .getFrame 4, .addFrame 9 (.pixel 2)]).1 7 ↔
      (execute false 1280 720 15
        [.addFrame 0 (.pixel 1), .getFrame 4, .addFrame 9 (.pixel 2)]).1.fragments.length = 1 :=
  retrieves_iff 1280 720 15 (by norm_num)
    [.addFrame 0 (.pixel 1), .getFrame 4, .addFrame 9 (.pixel 2)] 7
    { (VideoBuffer.new 1280 720 15).opened 0 with
      rgbPlayer := ⟨none, 4 / 15⟩, depthPlayer := ⟨none, 4 / 15⟩ }
    { (VideoBuffer.new 1280 720 15).opened 0 with
      rgbPlayer := ⟨none, 4 / 15⟩, depthPlayer := ⟨none, 4 / 15⟩ }
    (by decide +kernel) (by decide +kernel) (by decide +kernel) (by decide +kernel)

/-- Fragments of 0 s to 15 s and of 15 s to 30 s: asking for 5 s deletes the first one
and answers blank. -/
theorem first_window_not_retrieved :
    (∃ first last,
        (execute false 1280 720 15
          [.addFrame 0 (.pixel 1), .addFrame 20 (.pixel 2)]).1.fragments.head? = some first ∧
        (execute false 1280 720 15
          [.addFrame 0 (.pixel 1), .addFrame 20 (.pixel 2)]).1.fragments.getLast? = some last ∧
        first.startTimestamp ≤ 5 ∧ 5 < last.startTimestamp + 15) ∧
      ¬ Retrieves (execute false 1280 720 15
        [.addFrame 0 (.pixel 1), .addFrame 20 (.pixel 2)]).1 5 := by
  constructor
  · exact ⟨(VideoBuffer.opened (.new 1280 720 15) 0).saveOnDisk.1,
      { VideoBuffer.opened (.new 1280 720 15) 15 with id := 2, filename := fragmentFileName 2 },
      by decide +kernel, by decide +kernel, by decide +kernel, by decide +kernel⟩
  · rintro ⟨older, requested, newer, -, -, -, -, hsource, -⟩
    have hblank : ((execute false 1280 720 15
        [.addFrame 0 (.pixel 1), .addFrame 20 (.pixel 2)]).1.getFrame 5).1.source = none := by
      decide +kernel
    rw [hblank] at hsource
    cases hsource

/-! ### Two queries -/

instance (b : VideoBuffer) (ts₁ ts₂ : ℚ) : Decidable (IndependentAt ask b ts₁ ts₂) :=
  inferInstanceAs (Decidable (_ ∧ _))

/-- One timestamp lies in the first stored fragment's window, and the other at or past
the second one's start. -/
def Interfering (b : VideoBuffer) (ts₁ ts₂ : ℚ) : Prop :=
  ∃ f ∈ b.fragments[0]?, ∃ g ∈ b.fragments[1]?, f.startTimestamp ≤ min ts₁ ts₂ ∧
    min ts₁ ts₂ < g.startTimestamp ∧ g.startTimestamp ≤ max ts₁ ts₂

theorem interfering_iff (b : VideoBuffer) (ts₁ ts₂ : ℚ) :
    Interfering b ts₁ ts₂ ↔ Crossed b.stamps ts₁ ts₂ := by
  simp [Interfering, Crossed, stamps, VideoFragment.stamp]

/-- Two queries answer from the same sources in either order, and alone, exactly when they
do not interfere. -/
theorem execute_independentAt_iff (w h : ℤ) (L : ℚ) (calls : List Call) (ts₁ ts₂ : ℚ) :
    IndependentAt ask (execute false w h L calls).1 ts₁ ts₂ ↔
      ¬ Interfering (execute false w h L calls).1 ts₁ ts₂ := by
  have hrun := (execute_refines false w h L calls).1
  rw [(ask_factors w h L _).independentAt_iff hrun, interfering_iff]
  rcases execute_cases false w h L calls with ⟨-, hnew⟩ | ⟨R, kept, last, -, s⟩
  · rw [hnew]
    simp [IndependentAt, stamps, VideoBuffer.new, retrieve, Crossed]
  · apply retrieve_independentAt_iff
    · intro p q rest hl hpq
      rw [stamps, List.pairwise_map]
      obtain ⟨f, fs, hb, rfl, hfs⟩ := List.map_eq_cons_iff.mp hl
      obtain ⟨g, gs, rfl, rfl, -⟩ := List.map_eq_cons_iff.mp hfs
      exact s.inOrder_of_lt hb hpq
    · rw [stamps, List.map_map]
      exact s.ids_nodup

/-- At 20 s, the query for 5 s changes the answer to the query for the present. -/
theorem past_query_interferes :
    (recordedFrames [.addFrame 0 (.pixel 1), .addFrame 20 (.pixel 2)]).map Prod.fst = [0, 20] ∧
      ¬ IndependentAt ask (execute false 1280 720 15
        [.addFrame 0 (.pixel 1), .addFrame 20 (.pixel 2)]).1 5 20 := by
  decide +kernel

/-! ### Sizes of the frames -/

/-- The returned frame has the buffer's size exactly when no fragment is read, or when the
memory of the new frame happens to hold that size. -/
theorem execute_hasSize_iff (w h : ℤ) (L : ℚ) (calls : List Call) (timestamp : ℚ)
    (lib : PixelImport) (memory : Memory) (pixels : VideoPlayer → Image UInt8) :
    (((execute false w h L calls).1.getFrame timestamp).1.frame lib memory pixels).HasSize w h ↔
      ¬ (execute false w h L calls).1.ReadsFirst timestamp ∨
        memory.width = w ∧ memory.height = h := by
  obtain ⟨hwidth, hheight⟩ := execute_size false w h L calls
  by_cases hreads : (execute false w h L calls).1.ReadsFirst timestamp
  · have hfirst := hreads
    rcases hfirst with ⟨f, rest, hb, -⟩
    rw [getFrame_first hb hreads]
    simp only [VideoFragment.getFrame, Reply.frame]
    rw [RgbdFrame.ofPixels_hasSize_iff, or_iff_right (not_not_intro hreads)]
  · rw [getFrame_blank hreads, hwidth, hheight]
    exact iff_of_true (RgbdFrame.ofSize_hasSize memory w h) (Or.inl hreads)

/-- Reading a loaded fragment whose players deliver the recorded size, with 7 and 3 in the new
frame's memory. -/
theorem read_frame_misfits :
    (Image.allocate (fun _ => 0) 3 2 1 : Image UInt8).HasSize 2 1 ∧
      ¬ (((execute false 2 1 15 [.addFrame 0 (.pixel 1), .addFrame 20 (.pixel 2)]).1.getFrame
        20).1.frame ⟨.bytes, .bytes⟩ { Memory.cleared with width := 7, height := 3 }
        (fun _ => .allocate (fun _ => 0) 3 2 1)).HasSize 2 1 := by
  decide +kernel

end TimeRoom.Takes
