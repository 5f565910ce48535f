import TimeRoom.App.Sessions
import TimeRoom.Frame.MissingDepth

/-!
# What the program shows

The program looks back by a minute, four windows.  With line 208 in place every
past picture is blank; without it, the picture of a minute ago is blank too, as
long as rounds and frames follow each other within a window.  A blank frame is not
cleared, so the window shows the latest frame next to what new memory held; and the
merge of the two would show the latest frame again if that memory was cleared.
-/

namespace TimeRoom.App
open TimeRoom.Frame Buffer Runs Takes VideoBuffer

variable {σ : Type}

/-- The color image of a blank frame: what the memory held. -/
def blankColor (memory : Memory) : Image UInt8 :=
  .allocate memory.colorImage 3 cameraWidth cameraHeight

/-- The depth image of a blank frame: the inverse of what the memory held. -/
def blankDepth (memory : Memory) : Image UInt8 :=
  (Image.allocate memory.depthImage 1 cameraWidth cameraHeight).invert

theorem assign_blank (libs : Libraries σ) (memory : Memory) {color depth : Image UInt8}
    (hcolor : color.HasSize cameraWidth cameraHeight)
    (hdepth : depth.HasSize cameraWidth cameraHeight) :
    libs.assign.toFun color (RgbdFrame.ofSize memory 1280 720).colorImage = blankColor memory ∧
      libs.assign.toFun depth (RgbdFrame.ofSize memory 1280 720).depthImage = blankDepth memory :=
  ⟨libs.assign.same _ _ hcolor, libs.assign.same _ _ hdepth⟩

namespace OfApp
variable (ed : Edition) (libs : Libraries σ)

/-! ### Sizes -/

/-- All images have the size of the camera. -/
structure Sized (a : OfApp σ) : Prop where
  current : a.currentImage.HasSize cameraWidth cameraHeight
  currentDepth : a.currentDepthImage.HasSize cameraWidth cameraHeight
  past : ∀ i, (a.pastImages i).HasSize cameraWidth cameraHeight
  pastDepth : ∀ i, (a.pastDepthImages i).HasSize cameraWidth cameraHeight

theorem assign_hasSize {dst : Image UInt8} {w h : ℤ} (hdst : dst.HasSize w h)
    (src : Image UInt8) : (libs.assign.toFun dst src).HasSize w h :=
  ⟨(libs.assign.width dst src).trans hdst.1, (libs.assign.height dst src).trans hdst.2⟩

theorem update_hasSize {w h : ℤ} {images : Fin REPEAT_NUMBER → Image UInt8}
    (himages : ∀ i, (images i).HasSize w h) (i : Fin REPEAT_NUMBER) (src : Image UInt8) :
    ∀ j, (Function.update images i (libs.assign.toFun (images i) src) j).HasSize w h := by
  intro j
  by_cases hj : j = i
  · subst hj
    rw [Function.update_self]
    exact assign_hasSize libs (himages j) src
  · rw [Function.update_of_ne hj]
    exact himages j

section Sizes
variable {a b : OfApp σ} (tick : Tick)

theorem Sized.pastPictures (h : a.Sized) {is : List (Fin REPEAT_NUMBER)}
    (hrun : (a.pastPictures ed libs tick is).1 = some b) : b.Sized := by
  induction is generalizing a with
  | nil =>
    obtain rfl : a = b := Option.some_inj.mp hrun
    exact h
  | cons i is ih =>
    rcases Machine.halting_cons_running _ hrun with ⟨c, hstep, hrest, -⟩
    obtain rfl := pastPicture_running ed libs tick hstep
    refine ih ?_ hrest
    exact ⟨h.current, h.currentDepth, update_hasSize libs h.past i _,
      update_hasSize libs h.pastDepth i _⟩

theorem Sized.updatePictures (h : a.Sized) (hrun : (a.updatePictures ed libs tick).1 = some b) :
    b.Sized := by
  obtain ⟨c, hpast, rfl⟩ := Option.map_eq_some_iff.mp hrun
  have hc := h.pastPictures ed libs tick hpast
  split
  · exact hc
  · exact ⟨hc.current, hc.currentDepth, hc.past, hc.pastDepth⟩

theorem allocated_sized (fresh : Fresh σ) (cameraFound : Bool) (cameraDepthScale : ℚ)
    (frames : Frameset) : (allocated fresh cameraFound cameraDepthScale frames).Sized :=
  ⟨⟨rfl, rfl⟩, ⟨rfl, rfl⟩, fun _ => ⟨rfl, rfl⟩, fun _ => ⟨rfl, rfl⟩⟩

end Sizes

/-! ### Past pictures -/

section Past
variable (tick : Tick) {a b : OfApp σ}

theorem pastPictures_other {i : Fin REPEAT_NUMBER} {is : List (Fin REPEAT_NUMBER)} (hi : i ∉ is)
    (hrun : (a.pastPictures ed libs tick is).1 = some b) :
    b.pastImages i = a.pastImages i ∧ b.pastDepthImages i = a.pastDepthImages i := by
  induction is generalizing a with
  | nil =>
    obtain rfl : a = b := Option.some_inj.mp hrun
    exact ⟨rfl, rfl⟩
  | cons j is ih =>
    rw [List.mem_cons, not_or] at hi
    rcases Machine.halting_cons_running _ hrun with ⟨c, hstep, hrest, -⟩
    have htail := ih hi.2 hrest
    obtain rfl := pastPicture_running ed libs tick hstep
    exact ⟨htail.1.trans (Function.update_of_ne hi.1 _ _),
      htail.2.trans (Function.update_of_ne hi.1 _ _)⟩

def pastReplies (a : OfApp σ) (is : List (Fin REPEAT_NUMBER)) : List Reply :=
  ((conversation ed.getFrameReturns).run a.buffer (is.map (pastCall tick))).2

theorem pastReplies_cons (a : OfApp σ) (i : Fin REPEAT_NUMBER) (is : List (Fin REPEAT_NUMBER)) :
    let r := a.buffer.query ed.getFrameReturns (tick.currentTime - delays.getD i 0)
    a.pastReplies ed tick (i :: is) = r.1 :: pastReplies ed tick { a with buffer := r.2.1 } is :=
  rfl

theorem pastReplies_length (a : OfApp σ) (is : List (Fin REPEAT_NUMBER)) :
    (a.pastReplies ed tick is).length = is.length := by
  induction is generalizing a with
  | nil => rfl
  | cons i is ih =>
    rw [pastReplies_cons, List.length_cons, ih]
    rfl

theorem pastPictures_shows {is : List (Fin REPEAT_NUMBER)} (his : is.Nodup)
    (hrun : (a.pastPictures ed libs tick is).1 = some b) :
    ∀ p ∈ is.zip (a.pastReplies ed tick is),
      let pastFrame := p.2.frame libs.pixels (tick.pastMemory p.1) (tick.players p.1)
      b.pastImages p.1 = libs.assign.toFun (a.pastImages p.1) pastFrame.colorImage ∧
        b.pastDepthImages p.1 =
          libs.assign.toFun (a.pastDepthImages p.1) pastFrame.depthImage := by
  induction is generalizing a with
  | nil => simp
  | cons i is ih =>
    rw [List.nodup_cons] at his
    rcases Machine.halting_cons_running _ hrun with ⟨c, hstep, hrest, -⟩
    have hothers := pastPictures_other ed libs tick his.1 hrest
    have htail := ih his.2 hrest
    obtain rfl := pastPicture_running ed libs tick hstep
    intro p hp
    rw [pastReplies_cons, List.zip_cons_cons] at hp
    rcases List.mem_cons.mp hp with rfl | hp
    · exact ⟨hothers.1.trans (Function.update_self _ _ _),
        hothers.2.trans (Function.update_self _ _ _)⟩
    · have hne : p.1 ≠ i := by
        intro heq
        exact his.1 (heq ▸ (List.of_mem_zip hp).1)
      have hshown := htail p hp
      simp only [Function.update_of_ne hne] at hshown
      exact hshown

end Past

/-! ### Blank replies -/

theorem replies_returned (w h : ℤ) (L : ℚ) (before calls : List Call) :
    ∀ reply ∈ ((conversation true).run (execute true w h L before).1 calls).2,
      reply = .blank w h := by
  induction calls generalizing before with
  | nil => simp
  | cons c calls ih =>
    have hnext := ih (before ++ [c])
    rw [execute, Machine.run_concat, ← execute] at hnext
    intro reply hreply
    rw [Machine.run_cons, List.mem_append] at hreply
    obtain ⟨hwidth, hheight⟩ := execute_size true w h L before
    cases c with
    | addFrame t x =>
      rcases hreply with hreply | hreply
      · cases hreply
      · exact hnext reply hreply
    | getFrame ts =>
      rcases hreply with hreply | hreply
      · exact (List.mem_singleton.mp hreply).trans (congrArg₂ Reply.blank hwidth hheight)
      · exact hnext reply hreply

/-- In the last of these rounds, the replies that look back by a minute are blank, and with
line 208 the others too. -/
theorem round_replies {rounds : List (Round RgbdFrame)} {r : Round RgbdFrame}
    (hpast : ed.getFrameReturns = true ∨ Steady 15 (rounds ++ [r])) :
    ∀ p ∈ delays.zip ((conversation ed.getFrameReturns).run (execute ed.getFrameReturns 1280 720 15
        (rounds.flatMap (Round.calls delays))).1 (r.calls delays)).2,
      ed.getFrameReturns = true ∨ 2 * 15 ≤ p.1 → p.2 = .blank 1280 720 := by
  intro p hp hlong
  cases hreturns : ed.getFrameReturns with
  | true =>
    rw [hreturns] at hp
    exact replies_returned 1280 720 15 _ _ p.2 (List.of_mem_zip hp).2
  | false =>
    rw [hreturns] at hp hpast hlong
    have hsteady : Steady 15 (rounds ++ [r]) := by simpa using hpast
    exact Steady.replies 1280 720 delays (by norm_num) hsteady p hp (by simpa using hlong)

/-! ### The last update of a session -/

variable {ed libs}

theorem Records.sized {a b : OfApp σ} {r : Round RgbdFrame} (h : Records ed libs a r b)
    (ha : a.Sized) : b.Sized := by
  constructor
  · rw [h.current]
    cases r.frame with
    | none => exact ha.current
    | some p => exact assign_hasSize libs ha.current _
  · rw [h.currentDepth]
    cases r.frame with
    | none => exact ha.currentDepth
    | some p => exact assign_hasSize libs ha.currentDepth _
  · rw [h.past]
    exact ha.past
  · rw [h.pastDepth]
    exact ha.pastDepth

theorem Records.replies {a b : OfApp σ} {r : Round RgbdFrame} (h : Records ed libs a r b)
    {tick : Tick} (htime : r.time = tick.currentTime) :
    ((conversation ed.getFrameReturns).run a.buffer (r.calls delays)).2 =
      b.pastReplies ed tick (List.finRange REPEAT_NUMBER) := by
  have hstate := h.buffer
  rw [recorded, ← conversation_fst] at hstate
  rw [pastReplies, past_calls, hstate, Round.calls, Machine.run_append, htime]
  cases r.frame with
  | none => rfl
  | some p => rfl

section Last
variable {camera : Camera} (hcamera : 0 < camera.devices) {fresh : Fresh σ} {ticks : List Tick}
  {tick : Tick} {a : OfApp σ}

include hcamera in
theorem session_concat (hrun : (session ed libs camera fresh (ticks ++ [tick])).1 = some a) :
    ∃ b c r, (session ed libs camera fresh ticks).1 = some b ∧
      roundsOf libs camera.depthScale fresh.filterState (ticks ++ [tick]) =
        roundsOf libs camera.depthScale fresh.filterState ticks ++ [r] ∧
      r.time = tick.currentTime ∧ Records ed libs b r c ∧
      (c.updatePictures ed libs tick).1 = some a := by
  rcases Machine.halting_concat _ hrun with ⟨b, hbefore, hstep, -⟩
  have hrunning : (session ed libs camera fresh ticks).1 ≠ none := by
    rw [session, machine, hbefore]
    exact Option.some_ne_none b
  have hdirects := (session_directs ed libs hcamera fresh ticks
    (session_set_up fresh hcamera hrunning) (Or.inl hrunning)).1
  rw [session, machine, hbefore] at hdirects
  obtain ⟨hfound, hscale, hpair⟩ := hdirects
  rcases update_cases ed libs tick hfound with ⟨shot, -, -, hupdate⟩ |
    ⟨c, r, shot, hdirect, htime, -, hrecords, hupdate⟩
  · rw [hupdate] at hstep
    cases hstep
  · rw [hupdate] at hstep
    refine ⟨b, c, r, hbefore, ?_, htime, hrecords, hstep⟩
    rw [hscale] at hdirect
    rw [roundsOf, director, Machine.run_concat, ← director, (Prod.mk.inj hpair).1]
    simp only [director, Machine.halting, hdirect]
    rfl

include hcamera in
theorem session_sized (hrun : (session ed libs camera fresh ticks).1 = some a) : a.Sized := by
  induction ticks using List.reverseRecOn generalizing a with
  | nil =>
    have hrunning : (session ed libs camera fresh []).1 ≠ none := by simp [hrun]
    rw [session, setup_found fresh hcamera (session_set_up fresh hcamera hrunning)] at hrun
    obtain rfl := Option.some_inj.mp hrun
    exact allocated_sized fresh true _ _
  | append_singleton ticks tick ih =>
    rcases session_concat hcamera hrun with ⟨b, c, r, hbefore, -, -, hrecords, hpictures⟩
    exact (hrecords.sized (ih hbefore)).updatePictures ed libs tick hpictures

theorem film_concat {r : Round RgbdFrame}
    (hrounds : roundsOf libs camera.depthScale fresh.filterState (ticks ++ [tick]) =
      roundsOf libs camera.depthScale fresh.filterState ticks ++ [r]) :
    film libs camera.depthScale fresh.filterState (deliveries (ticks ++ [tick])) =
      film libs camera.depthScale fresh.filterState (deliveries ticks) ++ r.frame.toList := by
  rw [← roundsOf_frames, ← roundsOf_frames, hrounds, List.filterMap_append]
  cases hr : r.frame with
  | none => simp [hr]
  | some p => simp [hr]

def latest (libs : Libraries σ) (camera : Camera) (fresh : Fresh σ) (ticks : List Tick) :
    Option RgbdFrame :=
  (film libs camera.depthScale fresh.filterState (deliveries ticks)).getLast?.map Prod.snd

/-- The color image of the latest frame, or what `setup` allocated. -/
def latestColor (fresh : Fresh σ) (frame : Option RgbdFrame) : Image UInt8 :=
  frame.elim (.allocate fresh.currentImage 3 cameraWidth cameraHeight) (·.colorImage)

def latestDepth (fresh : Fresh σ) (frame : Option RgbdFrame) : Image UInt8 :=
  frame.elim (.allocate fresh.currentDepthImage 1 cameraWidth cameraHeight) (·.depthImage)

include hcamera in
theorem session_current (hrun : (session ed libs camera fresh ticks).1 = some a)
    (hsize : ∀ x ∈ latest libs camera fresh ticks, x.HasSize cameraWidth cameraHeight) :
    a.currentImage = latestColor fresh (latest libs camera fresh ticks) ∧
      a.currentDepthImage = latestDepth fresh (latest libs camera fresh ticks) := by
  induction ticks using List.reverseRecOn generalizing a with
  | nil =>
    have hrunning : (session ed libs camera fresh []).1 ≠ none := by simp [hrun]
    rw [session, setup_found fresh hcamera (session_set_up fresh hcamera hrunning)] at hrun
    obtain rfl := Option.some_inj.mp hrun
    exact ⟨rfl, rfl⟩
  | append_singleton ticks tick ih =>
    rcases session_concat hcamera hrun with ⟨b, c, r, hbefore, hrounds, -, hrecords, hpictures⟩
    have hfilm := film_concat hrounds
    have hsettled := (updatePictures_run ed libs tick hpictures).2.2
    simp only [settled, Prod.mk.injEq] at hsettled
    have hb := session_sized hcamera hbefore
    rw [latest, hfilm] at hsize ⊢
    rw [hsettled.2.2.2.1, hsettled.2.2.2.2, hrecords.current, hrecords.currentDepth]
    cases hr : r.frame with
    | none =>
      rw [hr, Option.toList_none, List.append_nil] at hsize
      rw [Option.toList_none, List.append_nil]
      exact ih hbefore hsize
    | some p =>
      rw [hr, Option.toList_some, List.getLast?_concat] at hsize
      rw [Option.toList_some, List.getLast?_concat]
      have hp : p.2.HasSize cameraWidth cameraHeight := hsize p.2 rfl
      refine ⟨libs.assign.same _ _ ?_, libs.assign.same _ _ ?_⟩
      · rw [hp.2.1.1, hp.2.1.2]
        exact hb.current
      · rw [hp.1.1, hp.1.2]
        exact hb.currentDepth

theorem updatePictures_blank {c : OfApp σ} (hc : c.Sized) (i : Fin REPEAT_NUMBER)
    (hrun : (c.updatePictures ed libs tick).1 = some a)
    (hblank : ∀ p ∈ (List.finRange REPEAT_NUMBER).zip
      (c.pastReplies ed tick (List.finRange REPEAT_NUMBER)), p.1 = i → p.2 = .blank 1280 720) :
    a.pastImages i = blankColor (tick.pastMemory i) ∧
      a.pastDepthImages i = blankDepth (tick.pastMemory i) := by
  obtain ⟨b, hpast, rfl⟩ := Option.map_eq_some_iff.mp hrun
  have hlength := c.pastReplies_length ed tick (List.finRange REPEAT_NUMBER)
  have hi : i ∈ ((List.finRange REPEAT_NUMBER).zip
      (c.pastReplies ed tick (List.finRange REPEAT_NUMBER))).map Prod.fst := by
    rw [List.map_fst_zip hlength.ge]
    exact List.mem_finRange i
  rcases List.mem_map.mp hi with ⟨p, hp, rfl⟩
  have hshows := pastPictures_shows ed libs tick (List.nodup_finRange REPEAT_NUMBER) hpast p hp
  have hassign := assign_blank libs (tick.pastMemory p.1) (hc.past p.1) (hc.pastDepth p.1)
  rw [hblank p hp rfl] at hshows
  have hblanks : b.pastImages p.1 = blankColor (tick.pastMemory p.1) ∧
      b.pastDepthImages p.1 = blankDepth (tick.pastMemory p.1) :=
    ⟨hshows.1.trans hassign.1, hshows.2.trans hassign.2⟩
  split
  · exact hblanks
  · exact hblanks

include hcamera in
theorem session_past (hrun : (session ed libs camera fresh (ticks ++ [tick])).1 = some a)
    (hpast : ed.getFrameReturns = true ∨
      Steady 15 (roundsOf libs camera.depthScale fresh.filterState (ticks ++ [tick])))
    (i : Fin REPEAT_NUMBER) (hi : ed.getFrameReturns = true ∨ i = 0) :
    a.pastImages i = blankColor (tick.pastMemory i) ∧
      a.pastDepthImages i = blankDepth (tick.pastMemory i) := by
  rcases session_concat hcamera hrun with
    ⟨b, c, r, hbefore, hrounds, htime, hrecords, hpictures⟩
  have hbuffer := (session_running ed libs hcamera fresh ticks hbefore).2.1
  rw [hrounds] at hpast
  have hblank := round_replies ed hpast
  rw [← callsOf, ← hbuffer, hrecords.replies htime] at hblank
  apply updatePictures_blank (hrecords.sized (session_sized hcamera hbefore)) i hpictures
  rintro p hp rfl
  apply hblank (delays.getD p.1 0, p.2)
  · have hdelays : delays = (List.finRange REPEAT_NUMBER).map
        (fun i : Fin REPEAT_NUMBER => delays.getD i 0) := rfl
    rw [hdelays, List.zip_map_left]
    exact List.mem_map.mpr ⟨p, hp, rfl⟩
  · apply hi.imp_right
    intro hzero
    rw [hzero]
    norm_num [delays]

end Last

/-! ### The window -/

/-- In every session, whatever was filmed: the window shows the latest frame, and next to it
a blank one, which is what its memory held.  With line 208 this is so for all clock readings;
without it, in steady rounds. -/
theorem session_draws (ed : Edition) (libs : Libraries σ) (camera : Camera)
    (hcamera : 0 < camera.devices) (fresh : Fresh σ) (ticks : List Tick) (tick : Tick)
    (a : OfApp σ) (hrun : (session ed libs camera fresh (ticks ++ [tick])).1 = some a)
    (hsize : ∀ x ∈ latest libs camera fresh (ticks ++ [tick]),
      x.HasSize cameraWidth cameraHeight)
    (hpast : ed.getFrameReturns = true ∨
      Steady 15 (roundsOf libs camera.depthScale fresh.filterState (ticks ++ [tick]))) :
    let frame := latest libs camera fresh (ticks ++ [tick])
    a.draw = [⟨latestColor fresh frame, 0, 0, 640, 360⟩,
      ⟨latestDepth fresh frame, 0, 360, 640, 360⟩,
      ⟨blankColor (tick.pastMemory 0), 640, 0, 640, 360⟩,
      ⟨blankDepth (tick.pastMemory 0), 640, 360, 640, 360⟩] := by
  have hfound := (session_running ed libs hcamera fresh _ hrun).1
  have hcurrent := session_current hcamera hrun hsize
  have hblank := session_past hcamera hrun hpast 0 (Or.inr rfl)
  rw [draw, if_pos hfound, hcurrent.1, hcurrent.2, hblank.1, hblank.2]
  rfl

/-- The moment of a minute ago was recorded, and yet the right half shows used memory. -/
theorem steadyShots_drawn :
    let frame := latest plainLibraries oneCamera freshProgram (steadyShots ++ [lastShot])
    afterLastShot.draw = [⟨latestColor freshProgram frame, 0, 0, 640, 360⟩,
      ⟨latestDepth freshProgram frame, 0, 360, 640, 360⟩,
      ⟨blankColor usedMemory, 640, 0, 640, 360⟩, ⟨blankDepth usedMemory, 640, 360, 640, 360⟩] :=
  session_draws .complete plainLibraries oneCamera (by decide) freshProgram steadyShots lastShot
    afterLastShot (Option.some_get _).symm (by decide +kernel) (Or.inr steadyShots_steady)

/-- The current pictures show the last output of the processing blocks: its colors as they are,
and its distances up to four metres on the scale of a byte. -/
theorem session_pictures (ed : Edition) (libs : Libraries σ) (camera : Camera)
    (hcamera : 0 < camera.devices) (hscale : 0 < camera.depthScale) (fresh : Fresh σ)
    (ticks : List Tick) (a : OfApp σ)
    (hrun : (session ed libs camera fresh ticks).1 = some a) :
    ∃ outputs, processed libs fresh.filterState (deliveries ticks) = some outputs ∧
      ∀ frames ∈ outputs.getLast?, ∃ rgb depth, frames.getColorFrame = some rgb ∧
        frames.getDepthFrame = some depth ∧
        (Aligned rgb.video depth.depth → depth.depth.HasSize cameraWidth cameraHeight →
          Pictures MAX_DISTANCE camera.depthScale rgb depth a.currentImage
            a.currentDepthImage) := by
  have hlength := (session_running ed libs hcamera fresh ticks hrun).2.2.2
  obtain ⟨outputs, houtputs, hall⟩ :=
    (film_all_iff libs camera.depthScale fresh.filterState _).mp hlength
  refine ⟨outputs, houtputs, ?_⟩
  intro frames hlast
  have hfilm := film_forall₂ libs camera.depthScale fresh.filterState houtputs hall
  obtain ⟨p, hp, memory, hframe⟩ := forall₂_getLast? hfilm hlast
  have hlatest : latest libs camera fresh ticks = some p.2 := by
    rw [latest, hp]
    rfl
  obtain ⟨rgb, depth, hrgb, hdepth, -, hnew⟩ := Frameset.rgbdFrame_eq_some.mp hframe
  refine ⟨rgb, depth, hrgb, hdepth, ?_⟩
  intro haligned hsize
  have hcurrent := session_current hcamera hrun (fun x hx => by
    obtain rfl := Option.some_inj.mp (hlatest.symm.trans hx)
    rw [← hnew]
    exact ⟨hsize, hsize, hsize⟩)
  rw [hcurrent.1, hcurrent.2, hlatest, latestColor, latestDepth, Option.elim_some,
    Option.elim_some, ← hnew]
  exact ofCamera_pictures libs.rounding memory (by norm_num [MAX_DISTANCE]) hscale haligned

/-- The second of the two shots. -/
theorem twoShots_pictured :
    ∃ outputs, processed plainLibraries () (deliveries twoShots) = some outputs ∧
      ∀ frames ∈ outputs.getLast?, ∃ rgb depth, frames.getColorFrame = some rgb ∧
        frames.getDepthFrame = some depth ∧
        (Aligned rgb.video depth.depth → depth.depth.HasSize cameraWidth cameraHeight →
          Pictures MAX_DISTANCE oneCamera.depthScale rgb depth afterTwoShots.currentImage
            afterTwoShots.currentDepthImage) :=
  session_pictures .complete plainLibraries oneCamera (by decide) (by norm_num [oneCamera])
    freshProgram twoShots afterTwoShots (Option.some_get _).symm

/-! ### The merge -/

theorem updatePictures_merged {tick : Tick} {c a : OfApp σ}
    (hrun : (c.updatePictures ed libs tick).1 = some a) :
    a.mergedImage = fun p =>
      if ed.updateReturns = false ∧ (p.1 : ℤ) < a.currentImage.width ∧
          (p.2 : ℤ) < a.currentImage.height then
        maskShader (colorTexture a.currentImage) a.currentDepthImage.texture
          (colorTexture (a.pastImages 0)) (a.pastDepthImages 0).texture p
      else c.mergedImage p := by
  obtain ⟨b, hpast, rfl⟩ := Option.map_eq_some_iff.mp hrun
  have hmerged := (pastPictures_run ed libs tick hpast).2.2.2
  funext p
  cases hreturns : ed.updateReturns with
  | true => simp [hmerged]
  | false => simp [merge, hmerged]

/-- With the `return` in place, nothing is merged. -/
theorem session_unmerged {camera : Camera} (hcamera : 0 < camera.devices) {fresh : Fresh σ}
    {ticks : List Tick} {a : OfApp σ} (hreturns : ed.updateReturns = true)
    (hrun : (session ed libs camera fresh ticks).1 = some a) :
    a.mergedImage = fresh.mergedImage := by
  induction ticks using List.reverseRecOn generalizing a with
  | nil =>
    have hrunning : (session ed libs camera fresh []).1 ≠ none := by simp [hrun]
    rw [session, setup_found fresh hcamera (session_set_up fresh hcamera hrunning)] at hrun
    obtain rfl := Option.some_inj.mp hrun
    rfl
  | append_singleton ticks tick ih =>
    rcases session_concat hcamera hrun with ⟨b, c, r, hbefore, -, -, hrecords, hpictures⟩
    rw [updatePictures_merged hpictures]
    simp only [hreturns, Bool.true_eq_false, false_and, if_false]
    rw [hrecords.merged]
    exact ih hbefore

/-- In the same sessions, the frame buffer is never written as the code stands.  Without the
`return` before the merge it holds the latest frame, but where its depth is greater than that of
the blank frame; nowhere, if the memory of that was cleared. -/
theorem session_merges (ed : Edition) (libs : Libraries σ) (camera : Camera)
    (hcamera : 0 < camera.devices) (fresh : Fresh σ) (ticks : List Tick) (tick : Tick)
    (a : OfApp σ) (hrun : (session ed libs camera fresh (ticks ++ [tick])).1 = some a)
    (hsize : ∀ x ∈ latest libs camera fresh (ticks ++ [tick]),
      x.HasSize cameraWidth cameraHeight)
    (hpast : ed.getFrameReturns = true ∨
      Steady 15 (roundsOf libs camera.depthScale fresh.filterState (ticks ++ [tick])))
    (x y : ℕ) (hx : (x : ℤ) < cameraWidth) (hy : (y : ℤ) < cameraHeight) :
    let frame := latest libs camera fresh (ticks ++ [tick])
    let blank := 255 - (tick.pastMemory 0).depthImage (y * 1280 + x)
    let color := colorTexture (latestColor fresh frame) (x, y)
    a.mergedImage (x, y) =
        (if ed.updateReturns then fresh.mergedImage (x, y)
        else if blank < ((latestDepth fresh frame).at? x y).getD 0 then
          colorTexture (blankColor (tick.pastMemory 0)) (x, y)
        else color) ∧
      ((tick.pastMemory 0).depthImage (y * 1280 + x) = 0 → ed.updateReturns = false →
        a.mergedImage (x, y) = color) := by
  intro frame blank color
  have hcurrent := session_current hcamera hrun hsize
  have hpictures := session_past hcamera hrun hpast 0 (Or.inr rfl)
  have hsized := (session_sized hcamera hrun).current
  have hbyte : (blankDepth (tick.pastMemory 0)).at? x y = some blank :=
    ofSize_depthImage_at? (tick.pastMemory 0) hx hy
  have hmerged : a.mergedImage (x, y) =
      if ed.updateReturns then fresh.mergedImage (x, y)
      else if blank < ((latestDepth fresh frame).at? x y).getD 0 then
        colorTexture (blankColor (tick.pastMemory 0)) (x, y)
      else color := by
    cases hreturns : ed.updateReturns with
    | true =>
      rw [session_unmerged hcamera hreturns hrun]
      rfl
    | false =>
      rcases session_concat hcamera hrun with ⟨b, c, r, -, -, -, -, hlast⟩
      rw [updatePictures_merged hlast]
      simp only [hreturns]
      rw [hsized.1, hsized.2, if_pos ⟨trivial, hx, hy⟩, hpictures.1, hpictures.2,
        maskShader_bytes, hbyte, hcurrent.1, hcurrent.2]
      rfl
  refine ⟨hmerged, ?_⟩
  intro hcleared hreturns
  have hfar : blank = 255 := by simp [blank, hcleared]
  have hle (v : UInt8) : v ≤ 255 := by
    rw [UInt8.le_iff_toNat_le]
    exact Nat.le_of_lt_succ v.toNat_lt
  rw [hmerged, hreturns, hfar, if_neg Bool.false_ne_true, if_neg (UInt8.not_lt.mpr (hle _))]

theorem steadyShots_merged :
    let frame := latest plainLibraries oneCamera freshProgram (steadyShots ++ [lastShot])
    let blank := 255 - usedMemory.depthImage (7 * 1280 + 5)
    let color := colorTexture (latestColor freshProgram frame) (5, 7)
    afterLastShot.mergedImage (5, 7) =
        (if Edition.complete.updateReturns then ⟨0, 0, 0, 0⟩
        else if blank < ((latestDepth freshProgram frame).at? 5 7).getD 0 then
          colorTexture (blankColor usedMemory) (5, 7)
        else color) ∧
      (usedMemory.depthImage (7 * 1280 + 5) = 0 → Edition.complete.updateReturns = false →
        afterLastShot.mergedImage (5, 7) = color) :=
  session_merges .complete plainLibraries oneCamera (by decide) freshProgram steadyShots lastShot
    afterLastShot (Option.some_get _).symm (by decide +kernel) (Or.inr steadyShots_steady) 5 7
    (by decide) (by decide)

end OfApp

end TimeRoom.App
