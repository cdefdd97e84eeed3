import Mathlib.Data.List.Nodup
import ScriptBundle.Schedule.Supervisor

/-!
# The board of events

A board shows which events are latched and which contexts wait for which event.
It changes on three occasions only: an event is delivered, a context comes to wait,
or all contexts end.  No sequence of occasions leads to a context that waits for a
latched event, and a latched event is used up by the first context that asks for it.
-/

namespace ScriptBundle

/-- The events that are latched and the contexts that wait, in the order they came. -/
structure Board where
  latched : List EventId := []
  waiting : List (EventId × ContextId) := []

/-- What changes a board. -/
inductive Occasion where
  | delivery (event : EventId)
  /-- A context asks for an event. -/
  | wait (event : EventId) (id : ContextId)
  | abort
  deriving DecidableEq

/-- The contexts that asked for an event, in order. -/
def askers (event : EventId) (occasions : List Occasion) : List ContextId :=
  occasions.filterMap fun
    | .wait asked id => if asked = event then some id else none
    | _ => none

theorem askers_append (event : EventId) (first second : List Occasion) :
    askers event (first ++ second) = askers event first ++ askers event second :=
  List.filterMap_append

namespace Board

/-- The contexts that wait for an event, in the order they came. -/
def parked (board : Board) (event : EventId) : List ContextId :=
  (board.waiting.filter fun entry => entry.1 = event).map (·.2)

def after (board : Board) : Occasion → Board
  | .delivery event =>
      if board.parked event = [] then { board with latched := board.latched.insert event }
      else { board with waiting := board.waiting.filter fun entry => entry.1 ≠ event }
  | .wait event id =>
      if event ∈ board.latched then { board with latched := board.latched.erase event }
      else { board with waiting := board.waiting ++ [(event, id)] }
  | .abort => { board with waiting := [] }

def afterAll (board : Board) (occasions : List Occasion) : Board :=
  occasions.foldl after board

theorem afterAll_append (board : Board) (first second : List Occasion) :
    board.afterAll (first ++ second) = (board.afterAll first).afterAll second :=
  List.foldl_append

variable {board : Board} {event : EventId}

/-! ## Who is parked -/

@[simp]
theorem parked_latched (latched : List EventId) :
    Board.parked { board with latched } event = board.parked event := rfl

theorem parked_filter_ne (other : EventId) :
    Board.parked { board with waiting := board.waiting.filter fun entry => entry.1 ≠ other } event =
      if event = other then [] else board.parked event := by
  unfold parked
  rw [List.filter_filter]
  split
  · rename_i heq
    simp [heq]
  · rename_i hne
    refine congrArg (List.map _) (List.filter_congr fun entry _ => ?_)
    by_cases hentry : entry.1 = event
    · simp [hentry, hne]
    · simp [hentry]

theorem parked_append (other : EventId) (id : ContextId) :
    Board.parked { board with waiting := board.waiting ++ [(other, id)] } event =
      board.parked event ++ if other = event then [id] else [] := by
  unfold parked
  rw [List.filter_append, List.map_append]
  by_cases heq : other = event <;> simp [heq]

/-- An event is latched once, and nobody waits for it then. -/
structure Exclusive (board : Board) : Prop where
  nodup : board.latched.Nodup
  parked_eq_nil : ∀ event ∈ board.latched, board.parked event = []

theorem exclusive_empty : Exclusive {} where
  nodup := List.nodup_nil
  parked_eq_nil _ _ := rfl

theorem Exclusive.after (hboard : Exclusive board) (occasion : Occasion) :
    Exclusive (board.after occasion) := by
  cases occasion with
  | delivery event =>
      rw [Board.after]
      split
      · rename_i hparked
        refine ⟨hboard.nodup.insert, fun other hother => ?_⟩
        rcases List.mem_insert_iff.mp hother with rfl | hlatched
        · exact hparked
        · exact hboard.parked_eq_nil other hlatched
      · refine ⟨hboard.nodup, fun other hother => ?_⟩
        rw [parked_filter_ne]
        split
        · rfl
        · exact hboard.parked_eq_nil other hother
  | wait event id =>
      rw [Board.after]
      split
      · exact ⟨hboard.nodup.erase event, fun other hother =>
          hboard.parked_eq_nil other (List.mem_of_mem_erase hother)⟩
      · rename_i hlatched
        refine ⟨hboard.nodup, fun other hother => ?_⟩
        have hne : event ≠ other := fun heq => hlatched (heq ▸ hother)
        rw [parked_append, if_neg hne, List.append_nil]
        exact hboard.parked_eq_nil other hother
  | abort => exact ⟨hboard.nodup, fun _ _ => rfl⟩

theorem Exclusive.afterAll (hboard : Exclusive board) (occasions : List Occasion) :
    Exclusive (board.afterAll occasions) := by
  induction occasions generalizing board with
  | nil => exact hboard
  | cons occasion occasions ih => exact ih (hboard.after occasion)

/-! ## In the order they came -/

theorem parked_after_suffix (hboard : Exclusive board) {asked : List ContextId}
    (hasked : board.parked event <:+ asked) (occasion : Occasion) :
    (board.after occasion).parked event <:+ asked ++ askers event [occasion] := by
  cases occasion with
  | delivery other =>
      rw [after, show askers event [.delivery other] = [] from rfl, List.append_nil]
      split
      · exact hasked
      · rw [parked_filter_ne]
        split
        · exact List.nil_suffix
        · exact hasked
  | wait other id =>
      have haskers : askers event [.wait other id] = if other = event then [id] else [] := by
        by_cases heq : other = event <;> simp [askers, heq]
      rw [after, haskers]
      split
      · rename_i hlatched
        rw [parked_latched]
        split
        · rename_i heq
          rw [← heq, hboard.parked_eq_nil other hlatched]
          exact List.nil_suffix
        · rw [List.append_nil]
          exact hasked
      · rw [parked_append]
        obtain ⟨front, hfront⟩ := hasked
        exact ⟨front, by rw [← List.append_assoc, hfront]⟩
  | abort => exact List.nil_suffix

theorem parked_afterAll_suffix (hboard : Exclusive board) {asked : List ContextId}
    (hasked : board.parked event <:+ asked) (occasions : List Occasion) :
    (board.afterAll occasions).parked event <:+ asked ++ askers event occasions := by
  induction occasions generalizing board asked with
  | nil =>
      rw [show askers event [] = [] from rfl, List.append_nil]
      exact hasked
  | cons occasion occasions ih =>
      have hrest := ih (hboard.after occasion) (parked_after_suffix hboard hasked occasion)
      rw [List.append_assoc, ← askers_append] at hrest
      exact hrest

/-- Those who wait for an event are the last ones that asked for it. -/
theorem parked_afterAll_empty_suffix (occasions : List Occasion) :
    (Board.afterAll {} occasions).parked event <:+ askers event occasions := by
  have hsuffix : (Board.afterAll {} occasions).parked event <:+ [] ++ askers event occasions :=
    parked_afterAll_suffix exclusive_empty List.nil_suffix occasions
  rwa [List.nil_append] at hsuffix

/-! ## How long an event stays latched -/

/-- A latched event stays so until a context asks for it. -/
theorem mem_latched_afterAll (hlatched : event ∈ board.latched) {occasions : List Occasion}
    (hnobody : ∀ id, Occasion.wait event id ∉ occasions) :
    event ∈ (board.afterAll occasions).latched := by
  induction occasions generalizing board with
  | nil => exact hlatched
  | cons occasion occasions ih =>
      refine ih ?_ fun id hid => hnobody id (List.mem_cons_of_mem _ hid)
      cases occasion with
      | delivery other =>
          rw [after]
          split
          · exact List.mem_insert_of_mem hlatched
          · exact hlatched
      | wait other id =>
          have hne : event ≠ other := by
            rintro rfl
            exact hnobody id List.mem_cons_self
          rw [after]
          split
          · exact (List.mem_erase_of_ne hne).mpr hlatched
          · exact hlatched
      | abort => exact hlatched

/-- An event that is not latched stays so until it is delivered. -/
theorem notMem_latched_afterAll (hlatched : event ∉ board.latched) {occasions : List Occasion}
    (hsilent : Occasion.delivery event ∉ occasions) :
    event ∉ (board.afterAll occasions).latched := by
  induction occasions generalizing board with
  | nil => exact hlatched
  | cons occasion occasions ih =>
      refine ih ?_ fun hlater => hsilent (List.mem_cons_of_mem _ hlater)
      cases occasion with
      | delivery other =>
          have hne : event ≠ other := by
            rintro rfl
            exact hsilent List.mem_cons_self
          rw [after]
          split
          · intro hmem
            rcases List.mem_insert_iff.mp hmem with heq | hold
            · exact hne heq
            · exact hlatched hold
          · exact hlatched
      | wait other id =>
          rw [after]
          split
          · exact fun hmem => hlatched (List.mem_of_mem_erase hmem)
          · exact hlatched
      | abort => exact hlatched

/-- A context that asks for an event leaves it unlatched. -/
theorem notMem_latched_after_wait (hboard : Exclusive board) (id : ContextId) :
    event ∉ (board.after (.wait event id)).latched := by
  rw [after]
  split
  · exact hboard.nodup.not_mem_erase
  · rename_i hlatched
    exact hlatched

end Board

end ScriptBundle
