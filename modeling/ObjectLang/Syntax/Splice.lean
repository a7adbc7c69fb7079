set_option autoImplicit false

/-!
# Splicing while walking

A list is walked member by member while visits queue new members in front of the one they visit.
What is queued takes its place as soon as the visit ends and is not visited itself. Walks nest: what
a visit queues goes to the innermost list that is being walked.
-/

namespace ObjectLang

/-- A list being walked: the place of the current member, and what is queued in front of it. -/
structure WalkFrame (α : Type) where
  place : Nat
  queued : List α
  deriving Repr, Inhabited

/-- The lists being walked, the innermost first. -/
structure Walk (α : Type) where
  frames : List (WalkFrame α) := []
  deriving Repr, Inhabited

namespace Walk

variable {α σ ε : Type}

def depth (w : Walk α) : Nat := w.frames.length

def place? (w : Walk α) : Option Nat := w.frames.head?.map WalkFrame.place

def queue? (w : Walk α) (member : α) : Option (Walk α) :=
  match w.frames with
  | [] => none
  | frame :: outer => some ⟨{ frame with queued := frame.queued ++ [member] } :: outer⟩

def enter (w : Walk α) : Walk α := ⟨⟨0, []⟩ :: w.frames⟩

def leave (w : Walk α) : Walk α := ⟨w.frames.drop 1⟩

def moveTo (w : Walk α) (place : Nat) : Walk α :=
  match w.frames with
  | [] => w
  | frame :: outer => ⟨{ frame with place } :: outer⟩

def takeQueued (w : Walk α) : List α × Walk α :=
  match w.frames with
  | [] => ([], w)
  | frame :: outer => (frame.queued, ⟨{ frame with queued := [] } :: outer⟩)

/-- Visits members from `place` on; gives back the new list, up to the first error and with the
    rest unvisited behind it. -/
def members (visit : σ → Walk α → α → Except ε Unit × α × σ × Walk α) (state : σ) (w : Walk α)
    (place : Nat) : List α → Except ε Unit × List α × σ × Walk α
  | [] => (.ok (), [], state, w)
  | x :: rest =>
    let (result, x, state, w) := visit state (w.moveTo place) x
    let (queued, w) := w.takeQueued
    match result with
    | .error e => (.error e, queued ++ x :: rest, state, w)
    | .ok () =>
      let (result, rest, state, w) := members visit state w (place + queued.length + 1) rest
      (result, queued ++ x :: rest, state, w)

def list (visit : σ → Walk α → α → Except ε Unit × α × σ × Walk α) (state : σ) (w : Walk α)
    (xs : List α) : Except ε Unit × List α × σ × Walk α :=
  let (result, xs, state, w) := members visit state w.enter 0 xs
  (result, xs, state, w.leave)

end Walk
end ObjectLang
