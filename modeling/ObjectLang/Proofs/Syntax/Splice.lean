import ObjectLang.Syntax.Splice
set_option autoImplicit false

/-!
# What a walk makes of a list

A visit is a script of what it does with the lists that are being walked: it queues members, looks
where it is, walks another list, and in the end leaves its member behind, perhaps changed. What a
script does can be told without any stack of lists. A walk then visits the members one after another
until a visit fails, puts in front of each what its visit queued, and gives back the lists around it
as it found them.
-/

namespace ObjectLang

/-- What a visit does, step by step, with what it learns on the way. -/
inductive Script (α σ ε : Type) where
  /-- The visit ends and leaves its member behind. -/
  | finish (result : Except ε Unit) (left : α) (state : σ)
  /-- Queues a member and learns whether a list is being walked. -/
  | queue (member : α) (next : Bool → Script α σ ε)
  /-- Asks for the depth and the place of the walk. -/
  | observe (next : Nat → Option Nat → Script α σ ε)
  /-- Walks another list and learns how that ended. -/
  | walk (members : List α) (state : σ) (visit : σ → α → Script α σ ε)
      (next : Except ε Unit → List α → σ → Script α σ ε)

structure Effect (α σ ε : Type) where
  result : Except ε Unit
  /-- The member as the visit leaves it. -/
  left : α
  state : σ
  /-- What the visit queued for the list of its member, in this order. -/
  queued : List α

structure Visit (α σ ε : Type) where
  place : Nat
  before : σ
  member : α
  effect : Effect α σ ε

def Visit.laid {α σ ε : Type} (visit : Visit α σ ε) : List α :=
  visit.effect.queued ++ [visit.effect.left]

/-- The visits of a walk, and what it did not come to. -/
structure Course (α σ ε : Type) where
  result : Except ε Unit
  visits : List (Visit α σ ε)
  rest : List α
  state : σ

namespace Course

variable {α σ ε : Type}

def members (course : Course α σ ε) : List α :=
  course.visits.flatMap Visit.laid ++ course.rest

/-- The course of a walk whose visits have this effect. -/
def of (effect : σ → Nat → α → Effect α σ ε) (state : σ) (place : Nat) :
    List α → Course α σ ε
  | [] => ⟨.ok (), [], [], state⟩
  | x :: rest =>
    let visit : Visit α σ ε := ⟨place, state, x, effect state place x⟩
    match visit.effect.result with
    | .error e => ⟨.error e, [visit], rest, visit.effect.state⟩
    | .ok () =>
      let course := of effect visit.effect.state (place + visit.laid.length) rest
      { course with visits := visit :: course.visits }

end Course

namespace Script

variable {α σ ε : Type}

def play : Script α σ ε → Walk α → Except ε Unit × α × σ × Walk α
  | .finish result left state, w => (result, left, state, w)
  | .queue member next, w =>
    match w.queue? member with
    | some w => (next true).play w
    | none => (next false).play w
  | .observe next, w => (next w.depth w.place?).play w
  | .walk members state visit next, w =>
    let (result, members, state, w) :=
      Walk.list (fun state w x => (visit state x).play w) state w members
    (next result members state).play w

/-- What a script does at a depth and a place; what it queues inside another list goes there. -/
def effect : Script α σ ε → Nat → Nat → Effect α σ ε
  | .finish result left state, _, _ => ⟨result, left, state, []⟩
  | .queue member next, depth, place =>
    let rest := (next true).effect depth place
    { rest with queued := member :: rest.queued }
  | .observe next, depth, place => (next depth (some place)).effect depth place
  | .walk members state visit next, depth, place =>
    let inner := Course.of (fun state place x => (visit state x).effect (depth + 1) place) state 0
      members
    (next inner.result inner.members inner.state).effect depth place

end Script

namespace Walk

variable {α σ ε : Type}

/-- The visitor has this effect inside these lists, and touches only the queue of the innermost. -/
def Performs (outer : List (WalkFrame α)) (effect : σ → Nat → α → Effect α σ ε)
    (visit : σ → Walk α → α → Except ε Unit × α × σ × Walk α) : Prop :=
  ∀ state frame x, visit state ⟨frame :: outer⟩ x =
    let done := effect state frame.place x
    (done.result, done.left, done.state,
      ⟨{ frame with queued := frame.queued ++ done.queued } :: outer⟩)

variable {outer : List (WalkFrame α)} {effect : σ → Nat → α → Effect α σ ε}
  {visit : σ → Walk α → α → Except ε Unit × α × σ × Walk α}

/-- The members behind a place are walked along their course; only the place of the walk moves. -/
theorem members_eq (performs : Performs outer effect visit) (state : σ) (current place : Nat)
    (xs : List α) :
    ∃ final, members visit state ⟨⟨current, []⟩ :: outer⟩ place xs =
      let course := Course.of effect state place xs
      (course.result, course.members, course.state, ⟨⟨final, []⟩ :: outer⟩) := by
  induction xs generalizing state current place with
  | nil => exact ⟨current, rfl⟩
  | cons x rest ih =>
    have visited : visit state (moveTo ⟨⟨current, []⟩ :: outer⟩ place) x =
        ((effect state place x).result, (effect state place x).left, (effect state place x).state,
          ⟨⟨place, (effect state place x).queued⟩ :: outer⟩) :=
      performs state ⟨place, []⟩ x
    rw [Walk.members, visited, Course.of]
    cases ended : (effect state place x).result with
    | error e => exact ⟨place, by simp [takeQueued, Course.members, Visit.laid]⟩
    | ok _ =>
      obtain ⟨final, walked⟩ := ih (effect state place x).state place
        (place + (effect state place x).queued.length + 1)
      refine ⟨final, ?_⟩
      simp only [takeQueued, walked]
      simp [Course.members, Visit.laid, Nat.add_assoc]

theorem list_eq {w : Walk α} (performs : Performs w.frames effect visit) (state : σ)
    (xs : List α) :
    list visit state w xs =
      let course := Course.of effect state 0 xs
      (course.result, course.members, course.state, w) := by
  obtain ⟨final, walked⟩ := members_eq performs state 0 0 xs
  rw [list, enter, walked]
  rfl

/-- A script does inside any lists what it does at their depth. -/
theorem play_eq_effect (script : Script α σ ε) (frame : WalkFrame α) (outer : List (WalkFrame α)) :
    script.play ⟨frame :: outer⟩ =
      let done := script.effect (outer.length + 1) frame.place
      (done.result, done.left, done.state,
        ⟨{ frame with queued := frame.queued ++ done.queued } :: outer⟩) := by
  induction script generalizing frame outer with
  | finish result left state => simp [Script.play, Script.effect]
  | queue member next ih =>
    rw [Script.play, queue?]
    simp [ih, Script.effect]
  | observe next ih => exact ih _ _ frame outer
  | walk members state visit next ihVisit ihNext =>
    have inner : Performs (frame :: outer)
        (fun state place x => (visit state x).effect (outer.length + 1 + 1) place)
        (fun state w x => (visit state x).play w) := fun state inner x =>
      ihVisit state x inner (frame :: outer)
    rw [Script.play, list_eq (w := ⟨frame :: outer⟩) inner]
    exact ihNext _ _ _ frame outer

end Walk

namespace Visit

variable {α σ ε : Type}

/-- Visits that follow on one another: each begins with the state and behind the members that the
    ones before it left, and only the last one may fail. -/
inductive Follow (effect : σ → Nat → α → Effect α σ ε) :
    σ → Nat → List (Visit α σ ε) → Except ε Unit → σ → Prop where
  | done (state : σ) (place : Nat) : Follow effect state place [] (.ok ()) state
  | failed {state : σ} {place : Nat} {x : α} {e : ε}
      (failed : (effect state place x).result = .error e) :
      Follow effect state place [⟨place, state, x, effect state place x⟩] (.error e)
        (effect state place x).state
  | next {state last : σ} {place : Nat} {x : α} {visits : List (Visit α σ ε)}
      {result : Except ε Unit} (passed : (effect state place x).result = .ok ())
      (follow : Follow effect (effect state place x).state
        (place + ((effect state place x).queued.length + 1)) visits result last) :
      Follow effect state place (⟨place, state, x, effect state place x⟩ :: visits) result last

end Visit

namespace Course

variable {α σ ε : Type}

theorem follow_of (effect : σ → Nat → α → Effect α σ ε) (state : σ) (place : Nat) (xs : List α) :
    let course := Course.of effect state place xs
    Visit.Follow effect state place course.visits course.result course.state ∧
      xs = course.visits.map Visit.member ++ course.rest ∧
      (course.result = .ok () → course.rest = []) := by
  induction xs generalizing state place with
  | nil => exact ⟨.done state place, rfl, fun _ => rfl⟩
  | cons x rest ih =>
    rw [Course.of]
    cases ended : (effect state place x).result with
    | error e =>
      exact ⟨.failed ended, rfl, fun passed => nomatch passed⟩
    | ok _ =>
      have place' : place + (⟨place, state, x, effect state place x⟩ : Visit α σ ε).laid.length =
          place + ((effect state place x).queued.length + 1) := by
        rw [Visit.laid, List.length_append, List.length_singleton]
      obtain ⟨follow, split, finished⟩ := ih (effect state place x).state
        (place + ((effect state place x).queued.length + 1))
      simp only [place']
      refine ⟨.next ended follow, ?_, finished⟩
      rw [List.map_cons, List.cons_append, ← split]

end Course

namespace Walk

variable {α σ ε : Type}

/-- Visits the member at a place of the list, inserts there what the visit queued, and goes on behind
    both, in the list as it is by then. -/
def loop (visit : σ → Walk α → α → Except ε Unit × α × σ × Walk α) (state : σ) (w : Walk α)
    (place : Nat) (xs : List α) : Except ε Unit × List α × σ × Walk α :=
  if inside : place < xs.length then
    let visited := visit state (w.moveTo place) xs[place]
    let queued := visited.2.2.2.takeQueued.1
    let left := visited.2.2.2.takeQueued.2
    let changed := xs.set place visited.2.1
    let spliced := changed.take place ++ queued ++ changed.drop place
    match visited.1 with
    | .error e => (.error e, spliced, visited.2.2.1, left)
    | .ok () => loop visit visited.2.2.1 left (place + queued.length + 1) spliced
  else (.ok (), xs, state, w)
termination_by xs.length - place
decreasing_by
  simp only [List.length_append, List.length_take, List.length_drop, List.length_set]
  omega

def indexed (visit : σ → Walk α → α → Except ε Unit × α × σ × Walk α) (state : σ) (w : Walk α)
    (xs : List α) : Except ε Unit × List α × σ × Walk α :=
  let walked := loop visit state w.enter 0 xs
  (walked.1, walked.2.1, walked.2.2.1, walked.2.2.2.leave)

/-- What stands in front of the place has been walked and stays. -/
theorem loop_eq_members (visit : σ → Walk α → α → Except ε Unit × α × σ × Walk α) (state : σ)
    (w : Walk α) (front xs : List α) :
    loop visit state w front.length (front ++ xs) =
      let walked := members visit state w front.length xs
      (walked.1, front ++ walked.2.1, walked.2.2) := by
  induction xs generalizing front state w with
  | nil =>
    rw [loop, dif_neg (by simp)]
    rfl
  | cons x rest ih =>
    have here (inside : front.length < (front ++ x :: rest).length) :
        (front ++ x :: rest)[front.length] = x := by simp
    rw [loop, dif_pos (by simp), members]
    simp only [here, List.set_append_right _ _ (Nat.le_refl _), Nat.sub_self, List.set_cons_zero,
      List.take_left, List.drop_left]
    obtain ⟨result, x, state, w⟩ := visit state (w.moveTo front.length) x
    cases result with
    | error e => simp
    | ok _ =>
      have next := ih state w.takeQueued.2 (front ++ w.takeQueued.1 ++ [x])
      simp only [List.length_append, List.length_singleton, List.append_assoc, List.cons_append,
        List.nil_append] at next
      simp only [List.append_assoc, Nat.add_assoc] at next ⊢
      rw [next]

theorem indexed_eq_list (visit : σ → Walk α → α → Except ε Unit × α × σ × Walk α) (state : σ)
    (w : Walk α) (xs : List α) : indexed visit state w xs = list visit state w xs := by
  have walked := loop_eq_members visit state w.enter [] xs
  rw [List.length_nil, List.nil_append] at walked
  rw [indexed, walked]
  rfl

/-- A list is walked member by member, each visited once and in order, until a visit fails. It
    becomes what was queued during each visit with the visited member behind it, and then the
    members that the walk did not come to. What a visit queues is not visited, and what it queues
    while it walks another list goes there: the lists around a walk, with their places and all that
    is queued for them, are the same behind it, also when it ended with an error. A walk by places
    in the growing list comes to the same. -/
theorem list_splices (visit : σ → α → Script α σ ε) (state : σ) (w : Walk α) (xs : List α) :
    ∃ visits rest result last,
      Walk.list (fun state w x => (visit state x).play w) state w xs =
        (result, visits.flatMap Visit.laid ++ rest, last, w) ∧
      indexed (fun state w x => (visit state x).play w) state w xs =
        (result, visits.flatMap Visit.laid ++ rest, last, w) ∧
      xs = visits.map Visit.member ++ rest ∧
      Visit.Follow (fun state place x => (visit state x).effect (w.depth + 1) place) state 0 visits
        result last ∧
      (result = .ok () → rest = []) := by
  have performs : Performs w.frames
      (fun state place x => (visit state x).effect (w.depth + 1) place)
      (fun state w x => (visit state x).play w) := fun state frame x =>
    play_eq_effect (visit state x) frame w.frames
  obtain ⟨follow, split, finished⟩ := Course.follow_of
    (fun state place x => (visit state x).effect (w.depth + 1) place) state 0 xs
  have walked := list_eq performs state xs
  exact ⟨_, _, _, _, walked, (indexed_eq_list _ state w xs).trans walked, split, follow, finished⟩

/-- A member is queued in front of each member of two lists, one walked while the other is. -/
example : Walk.list (ε := Empty) (fun state w x => (Script.queue (x + 10) fun _ =>
      .walk [7] state (fun state y => .queue (y + 20) fun _ => .finish (.ok ()) y state)
        fun result inner state => .finish result x (state ++ inner)).play w) [] {} [1, 2] =
    (.ok (), [11, 1, 12, 2], [27, 7, 27, 7], {}) := by
  rfl

end Walk
end ObjectLang
