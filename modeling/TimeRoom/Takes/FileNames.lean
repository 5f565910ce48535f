import TimeRoom.Takes.Files

/-!
# No two fragments share a file

The counter behind the names only grows, while queries empty the vector from the
front.  As long as it stays within the digits that the buffer of
`addNewFragment` holds, every fragment of a run has a file name of its own, the
recorders write to different files, and a player opens its own fragment's files.
-/

namespace TimeRoom.Takes
open TimeRoom.Frame Buffer Runs VideoBuffer Recording

/-- The fragments created during these events, whether or not they are still stored. -/
def createdIn (tr : List Event) : List ℕ := createdFragments (commands tr)

@[simp] theorem createdIn_append (a b : List Event) :
    createdIn (a ++ b) = createdIn a ++ createdIn b := by
  rw [createdIn, commands_append, createdFragments, List.filterMap_append]
  rfl

/-- The output file, if the event sets up a recorder. -/
def outputPath? : Event → Option String
  | .command _ _ (.setup path _ _ _) => some path
  | _ => none

def outputPaths (tr : List Event) : List String := tr.filterMap outputPath?

/-- Over a whole run every fragment has its own name and its own files. -/
structure FilesDistinct (earlyReturn : Bool) (w h : ℤ) (L : ℚ) (calls : List Call) : Prop where
  created : (createdIn (execute earlyReturn w h L calls).2).Nodup
  stored : ∀ pre, pre <+: calls → ∀ f ∈ (execute earlyReturn w h L pre).1.fragments,
    f.id ∈ createdIn (execute earlyReturn w h L calls).2 ∧ f.filename = fragmentFileName f.id
  names : ((createdIn (execute earlyReturn w h L calls).2).map fragmentFileName).Nodup
  whole : ∀ i ∈ createdIn (execute earlyReturn w h L calls).2,
    fragmentFileName i = "fragments/" ++ zeroPad 5 i
  outputs : outputPaths (execute earlyReturn w h L calls).2 =
    (createdIn (execute earlyReturn w h L calls).2).map
      (fun i => fragmentFileName i ++ Channel.rgb.suffix)
  output_nodup : (outputPaths (execute earlyReturn w h L calls).2).Nodup
  paths : ∀ i ∈ createdIn (execute earlyReturn w h L calls).2,
    ∀ j ∈ createdIn (execute earlyReturn w h L calls).2, ∀ ch ch' : Channel,
      fragmentFileName i ++ ch.suffix = fragmentFileName j ++ ch'.suffix → i = j ∧ ch = ch'
  loads : ∀ i ch path, .load i ch path ∈ (execute earlyReturn w h L calls).2 →
    i ∈ createdIn (execute earlyReturn w h L calls).2 ∧ path = fragmentFileName i ++ ch.suffix
  own : ∀ i ch path, .load i ch path ∈ (execute earlyReturn w h L calls).2 →
    ∀ j ch' w' h' fps,
      .command j ch' (.setup path w' h' fps) ∈ (execute earlyReturn w h L calls).2 →
        j = i ∧ ch' = ch

theorem outputPaths_eq_map (path : ℕ → String) (tr : List Event)
    (hsetup : ∀ i ch p w h fps, .command i ch (.setup p w h fps) ∈ tr → p = path i) :
    outputPaths tr = (createdIn tr).map path := by
  induction tr with
  | nil => rfl
  | cons e tr ih =>
    have htail := ih (fun i ch p w h fps hmem =>
      hsetup i ch p w h fps (List.mem_cons_of_mem e hmem))
    cases e with
    | command i ch c =>
      cases c with
      | setup p w h fps =>
        have hpath := hsetup i ch p w h fps List.mem_cons_self
        have houtput : outputPaths (.command i ch (.setup p w h fps) :: tr) =
            p :: outputPaths tr := rfl
        have hcreated : createdIn (.command i ch (.setup p w h fps) :: tr) = i :: createdIn tr :=
          rfl
        rw [houtput, hcreated, List.map_cons, htail, hpath]
      | _ => exact htail
    | _ => exact htail

theorem mem_createdIn_of_setup {tr : List Event} {i : ℕ} {ch : Channel} {path : String} {w h : ℤ}
    {fps : ℕ} (hmem : .command i ch (.setup path w h fps) ∈ tr) : i ∈ createdIn tr := by
  rw [createdIn, createdFragments, List.mem_filterMap]
  exact ⟨_, mem_commands.mpr hmem, rfl⟩

section Execution
variable (earlyReturn : Bool) (w h : ℤ) (L : ℚ) (calls : List Call)

/-- The fragments created are numbered from one without gaps. -/
theorem execute_createdIn :
    createdIn (execute earlyReturn w h L calls).2 =
      List.range' 1 ((Recording.cut L (recordedFrames calls)).elim 0 (·.done.length + 1)) := by
  rw [createdIn, (execute_refines earlyReturn w h L calls).2, createdFragments_run]

theorem execute_createdIn_append (pre post : List Call) {i : ℕ}
    (hi : i ∈ createdIn (execute earlyReturn w h L pre).2) :
    i ∈ createdIn (execute earlyReturn w h L (pre ++ post)).2 := by
  rw [execute, Machine.run_append, createdIn_append]
  exact List.mem_append_left _ hi

theorem execute_fragment {f : VideoFragment}
    (hf : f ∈ (execute earlyReturn w h L calls).1.fragments) :
    f.id ∈ createdIn (execute earlyReturn w h L calls).2 ∧ f.filename = fragmentFileName f.id := by
  rcases execute_cases earlyReturn w h L calls with ⟨-, hnew⟩ | ⟨R, kept, last, hcut, s⟩
  · rw [hnew] at hf
    cases hf
  · rw [s.fragments] at hf
    have hmem : f.id ∈ (kept ++ [last]).map (·.id) := List.mem_map_of_mem hf
    have hstored := s.stored
    rw [s.ids, List.mem_range'_1] at hmem
    rw [execute_createdIn, hcut, Option.elim_some, List.mem_range'_1]
    exact ⟨by omega, (s.tracked f hf).filename⟩

theorem execute_setup {i : ℕ} {ch : Channel} {path : String} {w' h' : ℤ} {fps : ℕ}
    (hmem : .command i ch (.setup path w' h' fps) ∈ (execute earlyReturn w h L calls).2) :
    ch = .rgb ∧ path = fragmentFileName i ++ Channel.rgb.suffix := by
  have hlog : .setup path w' h' fps ∈
      recorderLog i ch (execute earlyReturn w h L calls).2 := by
    rw [recorderLog, received, List.mem_filterMap]
    exact ⟨_, mem_commands.mpr hmem, by simp⟩
  cases ch with
  | depth => simp [execute_depth_log] at hlog
  | rgb =>
    rw [execute_rgb_log] at hlog
    cases hcut : Recording.cut L (recordedFrames calls) with
    | none => simp [hcut] at hlog
    | some R =>
      rw [hcut, Option.elim_some] at hlog
      exact ⟨rfl, setup_mem_log hlog⟩

theorem execute_load_guarded :
    Guarded (fun pre e => ∀ i ch path, e = .load i ch path →
        i ∈ createdIn pre ∧ path = fragmentFileName i ++ ch.suffix)
      (execute earlyReturn w h L calls).2 := by
  rw [execute_guarded_iff earlyReturn w h L calls (fun pre t x =>
    (execute_refines earlyReturn w h L pre).1.addFrame_loads t x
      (fun _ e he i ch path heq => absurd heq (he i ch path)))]
  intro pre timestamp post _
  apply (execute_refines earlyReturn w h L pre).1.query_guarded
  intro R kept last _ s
  apply Guarded.of_forall
  rintro e he x i ch path rfl
  rcases s.load_mem_getFrame he with ⟨f, hf, -, rfl, rfl⟩
  have hfragment := execute_fragment earlyReturn w h L pre hf
  rw [createdIn_append, hfragment.2]
  exact ⟨List.mem_append_left _ hfragment.1, rfl⟩

theorem execute_load {i : ℕ} {ch : Channel} {path : String}
    (hmem : .load i ch path ∈ (execute earlyReturn w h L calls).2) :
    i ∈ createdIn (execute earlyReturn w h L calls).2 ∧
      path = fragmentFileName i ++ ch.suffix := by
  have hsplit := List.append_of_mem hmem
  rcases hsplit with ⟨pre, post, hsplit⟩
  have hload := execute_load_guarded earlyReturn w h L calls pre _ post hsplit i ch path rfl
  rw [hsplit, createdIn_append]
  exact ⟨List.mem_append_left _ hload.1, hload.2⟩

theorem execute_formattedName
    (hcount : (createdIn (execute earlyReturn w h L calls).2).length ≤ 2 ^ 31 - 1) {i : ℕ}
    (hi : i ∈ createdIn (execute earlyReturn w h L calls).2) :
    fragmentFileName i = formattedName i := by
  apply fragmentFileName_eq_of_int
  rw [execute_createdIn, List.length_range'] at hcount
  rw [execute_createdIn, List.mem_range'_1] at hi
  omega

/-- No two fragments share a file, in either version of `getFrame`. -/
theorem execute_filesDistinct
    (hcount : (createdIn (execute earlyReturn w h L calls).2).length ≤ 2 ^ 31 - 1) :
    FilesDistinct earlyReturn w h L calls := by
  have hnodup : (createdIn (execute earlyReturn w h L calls).2).Nodup := by
    rw [execute_createdIn]
    exact List.nodup_range'
  have hpaths : ∀ i ∈ createdIn (execute earlyReturn w h L calls).2,
      ∀ j ∈ createdIn (execute earlyReturn w h L calls).2, ∀ ch ch' : Channel,
        fragmentFileName i ++ ch.suffix = fragmentFileName j ++ ch'.suffix → i = j ∧ ch = ch' := by
    intro i hi j hj ch ch' heq
    have hsplit := Channel.append_suffix_inj heq
    rw [execute_formattedName earlyReturn w h L calls hcount hi,
      execute_formattedName earlyReturn w h L calls hcount hj] at hsplit
    exact ⟨formattedName_injective hsplit.1, hsplit.2⟩
  have houtputs := outputPaths_eq_map (fun i => fragmentFileName i ++ Channel.rgb.suffix)
    (execute earlyReturn w h L calls).2
    (fun i ch p w' h' fps hmem => (execute_setup earlyReturn w h L calls hmem).2)
  constructor
  · exact hnodup
  · rintro pre ⟨post, rfl⟩ f hf
    have hfragment := execute_fragment earlyReturn w h L pre hf
    exact ⟨execute_createdIn_append earlyReturn w h L pre post hfragment.1, hfragment.2⟩
  · apply hnodup.map_on
    intro i hi j hj hname
    exact (hpaths i hi j hj .rgb .rgb (by rw [hname])).1
  · intro i hi
    exact execute_formattedName earlyReturn w h L calls hcount hi
  · exact houtputs
  · rw [houtputs]
    apply hnodup.map_on
    intro i hi j hj hpath
    exact (hpaths i hi j hj .rgb .rgb hpath).1
  · exact hpaths
  · intro i ch path hmem
    exact execute_load earlyReturn w h L calls hmem
  · intro i ch path hload j ch' w' h' fps hsetup
    have hread := execute_load earlyReturn w h L calls hload
    have hwritten := execute_setup earlyReturn w h L calls hsetup
    rw [hwritten.1]
    exact hpaths j (mem_createdIn_of_setup hsetup) i hread.1 .rgb ch
      (hwritten.2.symm.trans hread.2)

end Execution

/-- The first fragment is evicted before the third is created; then the second is loaded. -/
theorem evicted_filesDistinct :
    .load 2 .rgb "fragments/00002_rgb.mov" ∈ (execute false 1280 720 15
        [.addFrame 0 (.pixel 1), .addFrame 20 (.pixel 2), .getFrame 5, .addFrame 40 (.pixel 3),
          .getFrame 40]).2 ∧
      FilesDistinct false 1280 720 15
        [.addFrame 0 (.pixel 1), .addFrame 20 (.pixel 2), .getFrame 5, .addFrame 40 (.pixel 3),
          .getFrame 40] :=
  ⟨by decide +kernel, execute_filesDistinct false 1280 720 15
    [.addFrame 0 (.pixel 1), .addFrame 20 (.pixel 2), .getFrame 5, .addFrame 40 (.pixel 3),
      .getFrame 40] (by decide +kernel)⟩

end TimeRoom.Takes
