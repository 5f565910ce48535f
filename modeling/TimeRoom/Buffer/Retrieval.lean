import TimeRoom.Runs.Machine
import TimeRoom.Buffer.Steps

/-!
# `getFrame` on fragments in the order of time

The loop of lines 216-220 tests whether the second fragment starts after the
timestamp.  On ordered fragments it therefore runs to the last fragment or not
at all.  What a query answers, and which fragments it keeps, depends only on
creation numbers and start times.
-/

namespace TimeRoom.Buffer
open Runs

def VideoFragment.prepare (f : VideoFragment) : VideoFragment × List Event :=
  if f.state = .onDisk then f.loadFromDisk else (f, [])

@[simp] theorem VideoFragment.prepare_start (f : VideoFragment) :
    f.prepare.1.startTimestamp = f.startTimestamp := by
  rw [prepare]
  split <;> rfl

@[simp] theorem VideoFragment.prepare_id (f : VideoFragment) : f.prepare.1.id = f.id := by
  rw [prepare]
  split <;> rfl

/-- The fragment and the position that a reply was read from. -/
def Reply.source : Reply → Option (ℕ × ℚ)
  | .blank _ _ => none
  | .played fragment rgbPlayer _ => some (fragment, rgbPlayer.position)

def InOrder (fragments : List VideoFragment) : Prop :=
  fragments.Pairwise (fun f g => f.startTimestamp < g.startTimestamp)

namespace VideoBuffer

variable {b : VideoBuffer} {timestamp : ℚ} {f g : VideoFragment} {rest : List VideoFragment}

/-! ### The loop -/

theorem evict_all (hlater : ∀ k ∈ rest, k.startTimestamp > timestamp) :
    evict timestamp (f :: rest) =
      ([(f :: rest).getLast (by simp)], (f :: rest).dropLast.flatMap discard) := by
  induction rest generalizing f with
  | nil => rfl
  | cons g rest ih =>
    have hg := hlater g List.mem_cons_self
    have htail := ih (f := g) (fun k hk => hlater k (List.mem_cons_of_mem g hk))
    rw [evict, if_pos hg, htail]
    simp [discard]

theorem evict_none (hg : ¬ g.startTimestamp > timestamp) :
    evict timestamp (f :: g :: rest) = (f :: g :: rest, []) := by
  rw [evict, if_neg hg]

/-! ### The ways through `getFrame` -/

theorem getFrame_early (hb : b.fragments = f :: rest) (hts : timestamp < f.startTimestamp)
    (hmore : f.state = .onDisk → rest ≠ []) :
    b.getFrame timestamp = (.blank b.videoWidth b.videoHeight,
      { b with fragments := f.prepare.1 :: rest }, f.prepare.2) := by
  have hsame : ({ b with fragments := f :: rest } : VideoBuffer) = b := by rw [← hb]
  by_cases hdisk : f.state = .onDisk
  · simp [getFrame, hb, hts, hmore hdisk, hdisk, VideoFragment.prepare]
  · simp [getFrame, hb, hts, hdisk, VideoFragment.prepare, hsame]

/-- After the first fragment's start, with no eviction: the first fragment is read. -/
theorem getFrame_read (hb : b.fragments = f :: rest) (hts : ¬ timestamp < f.startTimestamp)
    (hnext : ∀ g ∈ rest.head?, ¬ g.startTimestamp > timestamp) :
    b.getFrame timestamp =
      let p := f.prepare.1.getFrame ((timestamp - f.startTimestamp) / b.fragmentLength)
      (p.1, { b with fragments := p.2.1 :: rest }, f.prepare.2 ++ p.2.2) := by
  have hev : evict timestamp (f :: rest) = (f :: rest, []) := by
    cases rest with
    | nil => rfl
    | cons g rest => exact evict_none (hnext g rfl)
  have hprep : (if f.state = .onDisk then f.loadFromDisk else (f, [])) = f.prepare := rfl
  simp [getFrame, hb, hts, hev, hprep]

/-- A query at this time reads the first fragment: it has started, and so has the second
one, if any. -/
def ReadsFirst (b : VideoBuffer) (timestamp : ℚ) : Prop :=
  ∃ f rest, b.fragments = f :: rest ∧ f.startTimestamp ≤ timestamp ∧
    ∀ g ∈ rest.head?, g.startTimestamp ≤ timestamp

theorem readsFirst_iff (hb : b.fragments = f :: rest) :
    b.ReadsFirst timestamp ↔ f.startTimestamp ≤ timestamp ∧
      ∀ g ∈ rest.head?, g.startTimestamp ≤ timestamp := by
  constructor
  · rintro ⟨f', rest', hb', hreads⟩
    obtain ⟨rfl, rfl⟩ := List.cons.inj (hb.symm.trans hb')
    exact hreads
  · intro hreads
    exact ⟨f, rest, hb, hreads⟩

theorem getFrame_first (hb : b.fragments = f :: rest) (hreads : b.ReadsFirst timestamp) :
    b.getFrame timestamp =
      let p := f.prepare.1.getFrame ((timestamp - f.startTimestamp) / b.fragmentLength)
      (p.1, { b with fragments := p.2.1 :: rest }, f.prepare.2 ++ p.2.2) := by
  have hstarted := (readsFirst_iff hb).mp hreads
  exact getFrame_read hb hstarted.1.not_gt (fun g hg => (hstarted.2 g hg).not_gt)

/-- When the loop is entered with a fragment after the timestamp, it ends with one. -/
theorem evict_late (hg : g.startTimestamp > timestamp) :
    ∃ k others, (evict timestamp (g :: rest)).1 = k :: others ∧ k.startTimestamp > timestamp := by
  induction rest generalizing g with
  | nil => exact ⟨g, [], rfl, hg⟩
  | cons g' rest ih =>
    by_cases hg' : g'.startTimestamp > timestamp
    · rw [evict, if_pos hg']
      exact ih hg'
    · rw [evict_none hg']
      exact ⟨g, g' :: rest, rfl, hg⟩

/-- A query that does not read the first fragment answers blank, whatever the buffer. -/
theorem getFrame_blank (hnot : ¬ b.ReadsFirst timestamp) :
    (b.getFrame timestamp).1 = .blank b.videoWidth b.videoHeight := by
  cases hb : b.fragments with
  | nil => simp [getFrame, hb]
  | cons f rest =>
    rw [readsFirst_iff hb] at hnot
    by_cases hts : timestamp < f.startTimestamp
    · by_cases hload : rest ≠ [] ∧ f.state = .onDisk
      · simp [getFrame, hb, hts, hload]
      · simp only [getFrame, hb, if_pos hts, if_neg hload]
    · cases rest with
      | nil => simp [not_lt.mp hts] at hnot
      | cons g rest =>
        have hg : g.startTimestamp > timestamp := by simpa [not_lt.mp hts] using hnot
        obtain ⟨k, others, hev, hk⟩ : ∃ k others, (evict timestamp (g :: rest)).1 = k :: others ∧
            k.startTimestamp > timestamp := evict_late hg
        have hkept : (evict timestamp (f :: g :: rest)).1 = k :: others := by
          rw [evict, if_pos hg]
          exact hev
        have hprep : (if k.state = .onDisk then k.loadFromDisk else (k, [])) = k.prepare := rfl
        have hlate : timestamp < k.prepare.1.startTimestamp := by
          rw [VideoFragment.prepare_start]
          exact hk
        simp only [getFrame, hb, if_neg hts, hkept, hprep, if_pos hlate]

/-- Inside the first fragment's window, with fragments after it: all but the last are
evicted, and the answer is blank. -/
theorem getFrame_gap (hb : b.fragments = f :: g :: rest) (horder : InOrder b.fragments)
    (hts : ¬ timestamp < f.startTimestamp) (hgap : timestamp < g.startTimestamp) :
    ∃ last, (g :: rest).getLast? = some last ∧
      b.getFrame timestamp = (.blank b.videoWidth b.videoHeight,
        { b with fragments := [last.prepare.1] },
        (f :: g :: rest).dropLast.flatMap discard ++ last.prepare.2) := by
  have hlater : ∀ k ∈ g :: rest, k.startTimestamp > timestamp := by
    rw [hb, InOrder, List.pairwise_cons, List.pairwise_cons] at horder
    intro k hk
    rcases List.mem_cons.mp hk with rfl | hk
    · exact hgap
    · exact lt_trans hgap (horder.2.1 k hk)
  have hlast := hlater _ (List.getLast_mem (List.cons_ne_nil g rest))
  refine ⟨(g :: rest).getLast (by simp), List.getLast?_eq_getLast_of_ne_nil _, ?_⟩
  have hprep (k : VideoFragment) :
      (if k.state = .onDisk then k.loadFromDisk else (k, [])) = k.prepare := rfl
  simp only [getFrame, hb, if_neg hts, evict_all hlater, hprep, VideoFragment.prepare_start]
  rw [List.getLast_cons (List.cons_ne_nil g rest), if_pos hlast]

end VideoBuffer

/-! ### Numbers and start times -/

def VideoFragment.stamp (f : VideoFragment) : ℕ × ℚ := (f.id, f.startTimestamp)

/-- A query on creation numbers and start times. -/
def retrieve (length : ℚ) : List (ℕ × ℚ) → ℚ → Option (ℕ × ℚ) × List (ℕ × ℚ)
  | [], _ => (none, [])
  | [p], ts => (if p.2 ≤ ts then some (p.1, (ts - p.2) / length) else none, [p])
  | p :: q :: rest, ts =>
    if ts < p.2 then (none, p :: q :: rest)
    else if ts < q.2 then (none, [(q :: rest).getLast (by simp)])
    else (some (p.1, (ts - p.2) / length), p :: q :: rest)

section Retrieve
variable (length : ℚ) {p q : ℕ × ℚ} {rest : List (ℕ × ℚ)} {s t : ℚ}

theorem retrieve_early (hs : s < p.2) :
    retrieve length (p :: q :: rest) s = (none, p :: q :: rest) := if_pos hs

theorem retrieve_gap (hs : p.2 ≤ s) (hgap : s < q.2) :
    retrieve length (p :: q :: rest) s = (none, [(q :: rest).getLast (by simp)]) := by
  rw [retrieve, if_neg hs.not_gt, if_pos hgap]

theorem retrieve_read (hs : p.2 ≤ s) (hgap : q.2 ≤ s) :
    retrieve length (p :: q :: rest) s = (some (p.1, (s - p.2) / length), p :: q :: rest) := by
  rw [retrieve, if_neg hs.not_gt, if_neg hgap.not_gt]

theorem retrieve_one_early (hs : s < p.2) : retrieve length [p] s = (none, [p]) := by
  rw [retrieve, if_neg hs.not_ge]

/-- One time lies in the window of the first entry, and the other at or past the start of
the second. -/
def Crossed (l : List (ℕ × ℚ)) (s t : ℚ) : Prop :=
  ∃ p ∈ l[0]?, ∃ q ∈ l[1]?, p.2 ≤ min s t ∧ min s t < q.2 ∧ q.2 ≤ max s t

theorem crossed_cons : Crossed (p :: q :: rest) s t ↔
    p.2 ≤ min s t ∧ min s t < q.2 ∧ q.2 ≤ max s t := by
  simp [Crossed]

/-- Sorted, if the first entry has a window at all. -/
def SortedIfOpen (l : List (ℕ × ℚ)) : Prop :=
  ∀ p q rest, l = p :: q :: rest → p.2 < q.2 → l.Pairwise (fun p q => p.2 < q.2)

theorem retrieve_closed (hpq : q.2 ≤ p.2) (s : ℚ) :
    (retrieve length (p :: q :: rest) s).2 = p :: q :: rest := by
  rcases lt_or_ge s p.2 with hs | hs
  · rw [retrieve_early length hs]
  · rw [retrieve_read length hs (hpq.trans hs)]

/-- The earlier query decides: it spoils the later one exactly by evicting all but the
last entry. -/
private theorem retrieve_independentAt_of_le {l : List (ℕ × ℚ)} (hsorted : SortedIfOpen l)
    (hids : (l.map Prod.fst).Nodup) (hst : s ≤ t) :
    IndependentAt (retrieve length) l s t ↔ ¬ Crossed l s t := by
  match l with
  | [] => simp [IndependentAt, retrieve, Crossed]
  | [p] => simp [IndependentAt, retrieve, Crossed]
  | p :: q :: rest =>
    have hz : (q :: rest).getLast (by simp) ∈ q :: rest := List.getLast_mem _
    rw [crossed_cons, min_eq_left hst, max_eq_right hst, IndependentAt]
    rcases lt_or_ge p.2 q.2 with hpq | hpq
    swap
    · have hnot : ¬ (p.2 ≤ s ∧ s < q.2 ∧ q.2 ≤ t) := by
        rintro ⟨hs, hgap, -⟩
        linarith
      simp [retrieve_closed length hpq, hnot]
    have hsorted := hsorted p q rest rfl hpq
    rw [List.pairwise_cons, List.pairwise_cons] at hsorted
    have hqz : q.2 ≤ ((q :: rest).getLast (by simp)).2 := by
      rcases List.mem_cons.mp hz with heq | hz
      · rw [heq]
      · exact (hsorted.2.1 _ hz).le
    have hne : p.1 ≠ ((q :: rest).getLast (by simp)).1 := by
      rw [List.map_cons, List.nodup_cons] at hids
      intro heq
      exact hids.1 (heq ▸ List.mem_map_of_mem hz)
    rcases lt_or_ge s p.2 with hs | hs
    · -- the earlier query keeps the list, and is blank after the later one too
      have hblank : (retrieve length (retrieve length (p :: q :: rest) t).2 s).1 = none := by
        rcases lt_or_ge t p.2 with ht | ht
        · rw [retrieve_early length ht, retrieve_early length hs]
        · rcases lt_or_ge t q.2 with hgap | hgap
          · rw [retrieve_gap length ht hgap, retrieve_one_early length (by linarith)]
          · rw [retrieve_read length ht hgap, retrieve_early length hs]
      rw [hblank, retrieve_early length hs]
      simp [hs.not_ge]
    · rcases lt_or_ge s q.2 with hgap | hgap
      · rw [retrieve_gap length hs hgap]
        rcases lt_or_ge t q.2 with ht | ht
        · rw [retrieve_gap length (hs.trans hst) ht, retrieve_one_early length (by linarith),
            retrieve_one_early length (by linarith)]
          simp [ht.not_ge]
        · have hother : (retrieve length [(q :: rest).getLast (by simp)] t).1 ≠
              some (p.1, (t - p.2) / length) := by
            rw [retrieve]
            split
            · simp [hne.symm]
            · simp
          rw [retrieve_read length (hs.trans hst) ht]
          simp [hother, hs, hgap, ht]
      · rw [retrieve_read length hs hgap, retrieve_read length (hs.trans hst) (hgap.trans hst),
          retrieve_read length hs hgap]
        simp [hgap.not_gt]

theorem retrieve_independentAt_iff {l : List (ℕ × ℚ)} (hsorted : SortedIfOpen l)
    (hids : (l.map Prod.fst).Nodup) (s t : ℚ) :
    IndependentAt (retrieve length) l s t ↔ ¬ Crossed l s t := by
  rcases le_total s t with hst | hts
  · exact retrieve_independentAt_of_le length hsorted hids hst
  · have hswap := retrieve_independentAt_of_le length hsorted hids hts
    rw [Crossed, min_comm, max_comm, ← Crossed] at hswap
    exact ⟨fun h => hswap.mp h.symm, fun h => (hswap.mpr h).symm⟩

end Retrieve

namespace VideoBuffer

/-- A query, with the source of its reply as the answer. -/
def ask (b : VideoBuffer) (timestamp : ℚ) : Option (ℕ × ℚ) × VideoBuffer :=
  ((b.getFrame timestamp).1.source, (b.getFrame timestamp).2.1)

def stamps (b : VideoBuffer) : List (ℕ × ℚ) := b.fragments.map VideoFragment.stamp

/-- If the fragments are in order once the first two are, and the first is not the only
one when it is on disk, a query depends on numbers and start times only. -/
theorem ask_stamps (b : VideoBuffer)
    (horder : ∀ f g rest, b.fragments = f :: g :: rest → f.startTimestamp < g.startTimestamp →
      InOrder b.fragments)
    (hone : ∀ f rest, b.fragments = f :: rest → f.state = .onDisk → rest ≠ []) (timestamp : ℚ) :
    (b.ask timestamp).1 = (retrieve b.fragmentLength b.stamps timestamp).1 ∧
      (b.ask timestamp).2.stamps = (retrieve b.fragmentLength b.stamps timestamp).2 := by
  cases hb : b.fragments with
  | nil => simp [ask, stamps, getFrame, hb, retrieve, Reply.source]
  | cons f rest =>
    by_cases hts : timestamp < f.startTimestamp
    · have hstep := getFrame_early hb hts (hone f rest hb)
      cases rest with
      | nil => simp [ask, stamps, hstep, hb, retrieve, Reply.source, VideoFragment.stamp, hts]
      | cons g rest =>
        simp [ask, stamps, hstep, hb, retrieve, Reply.source, VideoFragment.stamp, hts]
    · cases rest with
      | nil =>
        have hstep := getFrame_read hb hts (by simp)
        simp [ask, stamps, hstep, hb, retrieve, Reply.source, VideoFragment.stamp,
          VideoFragment.getFrame, VideoPlayer.setPosition, not_lt.mp hts]
      | cons g rest =>
        by_cases hgap : timestamp < g.startTimestamp
        · obtain ⟨last, hlast, hstep⟩ := getFrame_gap hb
            (horder f g rest hb (lt_of_le_of_lt (not_lt.mp hts) hgap)) hts hgap
          have hmap : ((g :: rest).map VideoFragment.stamp).getLast? = some last.stamp := by
            rw [List.getLast?_map, hlast, Option.map_some]
          have hget := List.getLast?_eq_getLast_of_ne_nil (l := (g :: rest).map VideoFragment.stamp)
            (by simp)
          rw [hmap, Option.some_inj] at hget
          simp only [ask, stamps, hstep, hb, List.map_cons, retrieve]
          simp only [VideoFragment.stamp] at hget
          simp [VideoFragment.stamp, hts, hgap, Reply.source, hget]
        · have hstep := getFrame_read hb hts (by simpa using hgap)
          simp [ask, stamps, hstep, hb, retrieve, Reply.source, VideoFragment.stamp,
            VideoFragment.getFrame, VideoPlayer.setPosition, hts, hgap]

end VideoBuffer

end TimeRoom.Buffer
