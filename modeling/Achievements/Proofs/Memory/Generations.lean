import Achievements.Proofs.Engine.Operations
import Achievements.Proofs.Plan.Watching

/-!
# Rotating buffers

The three generations of memory live in three buffers that change roles: on each frame the oldest
one is filled anew in place, still holding stale bytes, and takes the place of the newest. What a
history shows is nevertheless the memory of three consecutive frames. `History.rotate_eq` says that
a rotation is `History.advance`, since a copy that fails is written over as a whole, and
`History.generations_are_frames` follows the buffers through any sequence of calls.
-/

set_option autoImplicit false

namespace Achievements

/-- Memory as the source of copies into a buffer of its size. A copy that succeeds leaves the
contents in the buffer, whatever was there; one that fails may leave anything. -/
structure RamSource where
  view : RamView
  fill : Array UInt8 → Array UInt8
  size_fill : ∀ buffer : Array UInt8, buffer.size = view.size → (fill buffer).size = view.size
  fill_of_copy : ∀ bytes, view.copy = .ok bytes →
    ∀ buffer : Array UInt8, buffer.size = view.size → fill buffer = bytes

namespace RamSource

/-- Memory that can be read fills a buffer with its bytes. -/
def readable (ram : Ram) : RamSource where
  view := .readable ram
  fill := fun _ => ram.bytes
  size_fill := fun _ _ => rfl
  fill_of_copy := by
    intro bytes copied _ _
    exact Except.ok.inj copied

/-- Memory that fails after it has put ones into the whole buffer. -/
def scribbling (size : Nat) (error : RamError) : RamSource where
  view := .unreadable size error
  fill := fun buffer => buffer.map fun _ => 1
  size_fill := by
    intro buffer sized
    rw [Array.size_map]
    exact sized
  fill_of_copy := by
    intro bytes copied
    cases copied

end RamSource

/-- Bytes cut off at a size, or extended to it with zeros. -/
def fitted (size : Nat) (bytes : Array UInt8) : Array UInt8 :=
  bytes.extract 0 size ++ Array.replicate (size - bytes.size) 0

theorem size_fitted (size : Nat) (bytes : Array UInt8) : (fitted size bytes).size = size := by
  rw [fitted, Array.size_append, Array.size_extract, Array.size_replicate]
  omega

theorem fitted_of_size {size : Nat} {bytes : Array UInt8} (same : bytes.size = size) :
    fitted size bytes = bytes := by
  subst same
  simp [fitted]

/-- The contents of memory on a frame, the first one being what was there before all views. A frame
that cannot be read repeats the one before it. -/
def contentsAt (initial : Array UInt8) (views : List RamView) : Nat → Array UInt8
  | 0 => initial
  | frame + 1 =>
      match views[frame]? with
      | some (.readable ram) => ram.bytes
      | _ => contentsAt initial views frame

theorem size_contents_at {initial : Array UInt8} {views : List RamView}
    (steady : ∀ view ∈ views, view.size = initial.size) (frame : Nat) :
    (contentsAt initial views frame).size = initial.size := by
  induction frame with
  | zero => rfl
  | succ frame ih =>
      rw [contentsAt]
      split
      · rename_i ram shown
        exact steady _ (List.mem_of_getElem? shown)
      · exact ih

/-- Later views do not change earlier frames. -/
theorem contents_at_append (initial : Array UInt8) (views later : List RamView) {frame : Nat}
    (past : frame ≤ views.length) :
    contentsAt initial (views ++ later) frame = contentsAt initial views frame := by
  induction frame with
  | zero => rfl
  | succ frame ih =>
      rw [contentsAt, contentsAt, List.getElem?_append_left past, ih (Nat.le_of_succ_le past)]

theorem contents_at_last (initial : Array UInt8) (views : List RamView) (view : RamView) :
    contentsAt initial (views ++ [view]) (views.length + 1) =
      match view.copy with
      | .ok bytes => bytes
      | .error _ => contentsAt initial views views.length := by
  rw [contentsAt, List.getElem?_concat_length, contents_at_append _ _ _ Nat.le.refl]
  cases view <;> rfl

namespace History

theorem resize_bytes_eq (size : Nat) (bytes : Array UInt8) :
    resizeBytes size bytes = fitted size bytes := by
  unfold resizeBytes
  split
  · rename_i same
    exact (fitted_of_size same).symm
  · apply Array.ext
    · rw [Array.size_ofFn, size_fitted]
    · intro index below _
      rw [Array.size_ofFn] at below
      simp only [Array.getElem_ofFn, fitted, Array.getElem_append, Array.size_extract,
        Array.getElem_extract, Array.getElem_replicate, Array.getD_eq_getD_getElem?]
      by_cases old : index < bytes.size
      · have kept : index < min size bytes.size - 0 := by omega
        rw [dif_pos kept, Array.getElem?_eq_getElem old]
        simp only [Option.getD_some, Nat.zero_add]
      · have added : ¬ index < min size bytes.size - 0 := by omega
        rw [dif_neg added, Array.getElem?_eq_none (Nat.le_of_not_lt old)]
        rfl

/-- One buffer is copied over another, which only buffers of one size allow. -/
def copyOver (buffer source : Array UInt8) : Option (Array UInt8) :=
  if buffer.size = source.size then some source else none

/-- One frame passes in place. The buffers change roles, so that the oldest one is `now`, and
that one is filled. Where the copy fails the buffer of the frame before is copied over it. -/
def rotate (history : History) (source : RamSource) : Option History :=
  let sized :=
    if history.size = source.view.size then history else history.resize source.view.size
  let filled := source.fill sized.prior
  match source.view.copy with
  | .ok _ => some ⟨filled, sized.now, sized.prev⟩
  | .error _ => (copyOver filled sized.now).map fun now => ⟨now, sized.now, sized.prev⟩

/-- A new buffer is filled and replaces all three, unless the copy fails. -/
def refill (history : History) (source : RamSource) : History :=
  let fresh := source.fill (Array.replicate source.view.size 0)
  match source.view.copy with
  | .ok _ => ⟨fresh, fresh, fresh⟩
  | .error _ => history

/-- Buffers of one size are resized together or not at all. -/
theorem resize_of_even {history : History} (even : history.Even) (size : Nat) :
    (if history.size = size then history else history.resize size) = history.resize size := by
  split
  · rename_i same
    have now : history.now.size = size := same
    rw [resize, resize_bytes_of_size now, resize_bytes_of_size (even.prev.trans now),
      resize_bytes_of_size (even.prior.trans now)]
  · rfl

/-- What one frame makes of the generations. -/
theorem advance_eq (history : History) (view : RamView) :
    history.advance view =
      { now := match view.copy with
          | .ok bytes => bytes
          | .error _ => fitted view.size history.now
        prev := fitted view.size history.now
        prior := fitted view.size history.prev } := by
  simp only [advance, resize, resize_bytes_eq]
  cases view <;> rfl

/-- A rotation is one frame, whatever stale bytes the oldest buffer held. -/
theorem rotate_eq {history : History} (even : history.Even) (source : RamSource) :
    history.rotate source = some (history.advance source.view) := by
  have sized := size_of_resized source.view.size
  have filled := source.size_fill _ (sized history.prior)
  rw [rotate, resize_of_even even, advance]
  cases copied : source.view.copy with
  | ok bytes =>
      have contents := source.fill_of_copy bytes copied _ (sized history.prior)
      exact congrArg (fun now => some (History.mk now _ _)) contents
  | error =>
      -- Both buffers have been resized, so copying one over the other cannot fail.
      have overwritten : copyOver (source.fill (history.resize source.view.size).prior)
          (history.resize source.view.size).now = some (history.resize source.view.size).now :=
        if_pos (filled.trans (sized history.now).symm)
      simp only [overwritten, Option.map_some]

theorem refill_eq (history : History) (source : RamSource) :
    history.refill source = history.resync source.view := by
  rw [refill, resync]
  cases copied : source.view.copy with
  | ok bytes =>
      have contents := source.fill_of_copy bytes copied (Array.replicate source.view.size 0)
        Array.size_replicate
      simp only [contents]
  | error => rfl

/-- A call on the buffers. -/
inductive Call where
  | advance (source : RamSource)
  | resync (source : RamSource)

namespace Call

/-- A call in place. -/
def perform (history : History) : Call → Option History
  | .advance source => history.rotate source
  | .resync source => some (history.refill source)

/-- What a call makes of the generations. -/
def apply (history : History) : Call → History
  | .advance source => history.advance source.view
  | .resync source => history.resync source.view

/-- The memory that a call lets a frame pass on. -/
def shown? : Call → Option RamView
  | .advance source => some source.view
  | .resync _ => none

/-- A frame on memory of a given size, or a resync that fails. -/
def Steady (size : Nat) : Call → Prop
  | .advance source => source.view.size = size
  | .resync source => ∃ error, source.view.copy = .error error

theorem even_apply {history : History} (even : history.Even) (call : Call) :
    (call.apply history).Even := by
  cases call with
  | advance source => exact even_advance history source.view
  | resync source => exact even_resync even source.view

theorem perform_eq {history : History} (even : history.Even) (call : Call) :
    call.perform history = some (call.apply history) := by
  cases call with
  | advance source => exact rotate_eq even source
  | resync source => exact congrArg some (history.refill_eq source)

end Call

/-- Calls in place, one after another. -/
def performAll (history : History) (calls : List Call) : Option History :=
  calls.foldlM Call.perform history

/-- The buffers go through any sequence of calls as the generations do. -/
theorem perform_all_eq {history : History} (even : history.Even) (calls : List Call) :
    history.performAll calls = some (calls.foldl Call.apply history) := by
  induction calls generalizing history with
  | nil => rfl
  | cons call calls ih =>
      rw [performAll, List.foldlM_cons, Call.perform_eq even call]
      exact ih (Call.even_apply even call)

/-- The generations of a run of views, the newest being those of the last one. -/
def ofFrames (initial : Array UInt8) (views : List RamView) : History where
  now := contentsAt initial views views.length
  prev := contentsAt initial views (views.length - 1)
  prior := contentsAt initial views (views.length - 2)

/-- One more frame on memory of the same size. -/
theorem advance_of_frames {initial : Array UInt8} {views : List RamView} {view : RamView}
    (steady : ∀ shown ∈ views, shown.size = initial.size) (same : view.size = initial.size) :
    (ofFrames initial views).advance view = ofFrames initial (views ++ [view]) := by
  have kept (frame : Nat) :
      fitted view.size (contentsAt initial views frame) = contentsAt initial views frame :=
    fitted_of_size ((size_contents_at steady frame).trans same.symm)
  have length : (views ++ [view]).length = views.length + 1 := List.length_append
  rw [advance_eq]
  -- The last two frames move up, and the new one is appended.
  simp only [ofFrames, kept, length, contents_at_last, Nat.add_sub_cancel,
    contents_at_append _ _ _ Nat.le.refl, History.mk.injEq, true_and]
  exact (contents_at_append initial views [view] (by omega)).symm

/-- The generations stay the last three frames as long as memory keeps its size and no resync
succeeds. -/
theorem apply_all_of_frames {initial : Array UInt8} {views : List RamView}
    (past : ∀ shown ∈ views, shown.size = initial.size) (calls : List Call)
    (steady : ∀ call ∈ calls, call.Steady initial.size) :
    calls.foldl Call.apply (ofFrames initial views) =
      ofFrames initial (views ++ calls.filterMap Call.shown?) := by
  induction calls generalizing views with
  | nil => rw [List.filterMap_nil, List.append_nil, List.foldl_nil]
  | cons call calls ih =>
      have first := steady call List.mem_cons_self
      have rest : ∀ other ∈ calls, other.Steady initial.size := fun other member =>
        steady other (List.mem_cons_of_mem _ member)
      cases call with
      | advance source =>
          have longer : ∀ shown ∈ views ++ [source.view], shown.size = initial.size := by
            intro shown member
            rcases List.mem_append.mp member with earlier | last
            · exact past shown earlier
            · exact List.mem_singleton.mp last ▸ first
          have later := ih longer rest
          rw [List.append_assoc] at later
          rw [List.foldl_cons, Call.apply, advance_of_frames past first]
          exact later
      | resync source =>
          obtain ⟨error, failed⟩ := first
          have unchanged : Call.apply (ofFrames initial views) (.resync source) =
              ofFrames initial views := by
            simp only [Call.apply, resync, failed]
          rw [List.foldl_cons, unchanged]
          exact ih past rest

end History

namespace Engine

/-- A frame on which memory cannot be read is one on which it has not changed. -/
theorem frame_of_unreadable (engine : Engine) (size : Nat) (error : RamError) :
    engine.frame (.unreadable size error) =
      engine.frame (.readable ⟨fitted size engine.history.now⟩) := by
  have same : engine.history.advance (.unreadable size error) =
      engine.history.advance (.readable ⟨fitted size engine.history.now⟩) := by
    rw [History.advance_eq, History.advance_eq]
    simp only [RamView.size, RamView.copy, Ram.size, size_fitted]
  rw [frame, frame, same]

end Engine

namespace History

/-- Buffers that rotate in place hold what the frames of memory were. Each call makes of them what
it makes of the generations; from a resync on they are the last three frames; and a frame on which
memory cannot be read is to an engine one on which it has not changed. -/
theorem generations_are_frames {history : History} (even : history.Even) :
    (∀ source : RamSource, history.rotate source = some (history.advance source.view) ∧
      history.advance source.view =
        { now := match source.view.copy with
            | .ok bytes => bytes
            | .error _ => fitted source.view.size history.now
          prev := fitted source.view.size history.now
          prior := fitted source.view.size history.prev }) ∧
    (∀ source : RamSource, history.refill source = history.resync source.view ∧
      history.resync source.view =
        match source.view.copy with
        | .ok bytes => ⟨bytes, bytes, bytes⟩
        | .error _ => history) ∧
    (∀ (before after : List Call) (source : RamSource) (initial : Array UInt8),
      source.view.copy = .ok initial → (∀ call ∈ after, call.Steady initial.size) →
      history.performAll (before ++ .resync source :: after) =
          some ((before ++ .resync source :: after).foldl Call.apply history) ∧
        (before ++ .resync source :: after).foldl Call.apply history =
          ofFrames initial (after.filterMap Call.shown?)) ∧
    ∀ (engine : Engine) (size : Nat) (error : RamError),
      engine.frame (.unreadable size error) =
        engine.frame (.readable ⟨fitted size engine.history.now⟩) := by
  refine ⟨fun source => ?_, fun source => ?_, fun before after source initial copied steady => ?_,
    fun engine size error => ?_⟩
  · exact ⟨rotate_eq even source, history.advance_eq source.view⟩
  · exact ⟨history.refill_eq source, rfl⟩
  · have synced : Call.apply (before.foldl Call.apply history) (.resync source) =
        ⟨initial, initial, initial⟩ := by
      simp only [Call.apply, resync, copied]
    have none : ∀ shown ∈ ([] : List RamView), shown.size = initial.size := by
      intro shown member
      cases member
    refine ⟨perform_all_eq even _, ?_⟩
    rw [List.foldl_append, List.foldl_cons, synced]
    exact apply_all_of_frames none after steady
  · exact engine.frame_of_unreadable size error

/-- A frame that fails half-way, and a resync that fails on memory of another size. -/
theorem failed_frame_repeats :
    (zeroed 2).performAll ([.advance (.readable ⟨#[7]⟩)] ++ .resync (.readable ⟨#[1, 2]⟩) ::
      [.advance (.readable ⟨#[3, 4]⟩), .advance (.scribbling 2 (.unavailable "paused")),
        .resync (.scribbling 5 (.unavailable "paused"))]) =
      some ⟨#[3, 4], #[3, 4], #[1, 2]⟩ := by
  have even : (zeroed 2).Even := ⟨rfl, rfl⟩
  obtain ⟨inPlace, frames⟩ := (generations_are_frames even).2.2.1
    [.advance (.readable ⟨#[7]⟩)] [.advance (.readable ⟨#[3, 4]⟩),
      .advance (.scribbling 2 (.unavailable "paused")),
      .resync (.scribbling 5 (.unavailable "paused"))] (.readable ⟨#[1, 2]⟩) #[1, 2] rfl (by
        intro call member
        simp only [List.mem_cons, List.not_mem_nil, or_false] at member
        rcases member with rfl | rfl | rfl
        · rfl
        · rfl
        · exact ⟨_, rfl⟩)
  exact inPlace.trans (congrArg some frames)

end History

end Achievements
