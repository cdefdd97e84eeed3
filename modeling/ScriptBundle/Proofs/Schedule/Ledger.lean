import Mathlib.Data.List.Perm.Basic
import Mathlib.Logic.Relation
import ScriptBundle.Schedule.Supervisor

/-!
# The ledger of a supervisor

A ledger says which ids are queued, which context has its turn, which contexts
are active and how the retained ones ended.  Every operation of a supervisor is a
sequence of moves between ledgers.  So what a move preserves, every run preserves:
the books stay balanced, and no id comes back once its context has ended.
-/

namespace ScriptBundle

structure Ledger where
  /-- The ids in the queues, those of the pass under way among them. -/
  queued : List ContextId
  /-- The id of the context that has its turn, if there is one. -/
  running : List ContextId
  active : List ContextId
  retained : List ContextId
  nextId : ContextId
  /-- The final states that are kept. -/
  final : ContextId → Option ExecutionState

namespace Ledger

/-- The ids of contexts that have not come to an end. -/
def present (ledger : Ledger) : List ContextId :=
  ledger.running ++ ledger.active

/-- Records the end of some contexts, for those of them that are retained. -/
def recording (ledger : Ledger) (ids : List ContextId) (state : ExecutionState) :
    ContextId → Option ExecutionState :=
  fun id => if id ∈ ids ∧ id ∈ ledger.retained then some state else ledger.final id

/-- What an operation can do to the books. -/
inductive Move : Ledger → Ledger → Prop
  /-- Ids pass from one queue to another one. -/
  | requeue (ledger : Ledger) (queued : List ContextId) (hqueued : queued.Perm ledger.queued) :
      Move ledger { ledger with queued }
  /-- A context becomes active under a new id. -/
  | register (ledger : Ledger) (retain : Bool) (queued : List ContextId)
      (hqueued : queued.Perm (ledger.nextId :: ledger.queued)) :
      Move ledger
        { ledger with
          queued
          active := ledger.active.filter (· ≠ ledger.nextId) ++ [ledger.nextId]
          retained := if retain then ledger.nextId :: ledger.retained else ledger.retained
          nextId := ledger.nextId + 1 }
  /-- The turn of a queued context begins. -/
  | start (ledger : Ledger) (id : ContextId) (queued : List ContextId)
      (hqueued : ledger.queued = id :: queued) (hrunning : ledger.running = []) :
      Move ledger
        { ledger with queued, running := [id], active := ledger.active.filter (· ≠ id) }
  /-- A turn ends, and its context is queued again. -/
  | suspend (ledger : Ledger) (id : ContextId) (queued : List ContextId)
      (hrunning : ledger.running = [id]) (hqueued : queued.Perm (id :: ledger.queued)) :
      Move ledger
        { ledger with queued, running := [], active := ledger.active.filter (· ≠ id) ++ [id] }
  /-- A turn ends, and its context with it. -/
  | conclude (ledger : Ledger) (id : ContextId) (state : ExecutionState)
      (hterminal : state.isTerminal = true) (hrunning : ledger.running = [id]) :
      Move ledger { ledger with running := [], final := ledger.recording [id] state }
  /-- All contexts end between two turns. -/
  | abort (ledger : Ledger) (hrunning : ledger.running = []) :
      Move ledger
        { ledger with
          queued := []
          running := []
          active := []
          final := ledger.recording ledger.active .aborted }

abbrev Moves : Ledger → Ledger → Prop :=
  Relation.ReflTransGen Move

/-! ## Balance -/

/-- The active contexts are just the queued ones, each of them once, and exactly
the retained contexts that are not present any more have a final state. -/
structure Balanced (ledger : Ledger) : Prop where
  queued : ledger.queued.Perm ledger.active
  nodup : ledger.present.Nodup
  present_final : ∀ id ∈ ledger.present, ledger.final id = none
  final_retained : ∀ id, (ledger.final id).isSome → id ∈ ledger.retained
  retained_final : ∀ id ∈ ledger.retained, id ∉ ledger.present → (ledger.final id).isSome
  final_terminal : ∀ id, ∀ state ∈ ledger.final id, state.isTerminal = true
  bounded : ∀ id, id ∈ ledger.present ∨ id ∈ ledger.retained → id < ledger.nextId

theorem filter_ne_of_notMem {ids : List ContextId} {id : ContextId} (hid : id ∉ ids) :
    ids.filter (· ≠ id) = ids := by
  rw [List.filter_eq_self]
  intro other hother
  simp only [decide_eq_true_eq]
  rintro rfl
  exact hid hother

namespace Balanced

variable {ledger : Ledger}

theorem requeue (hbalanced : Balanced ledger) {queued : List ContextId}
    (hqueued : queued.Perm ledger.queued) : Balanced { ledger with queued } where
  queued := hqueued.trans hbalanced.queued
  nodup := hbalanced.nodup
  present_final := hbalanced.present_final
  final_retained := hbalanced.final_retained
  retained_final := hbalanced.retained_final
  final_terminal := hbalanced.final_terminal
  bounded := hbalanced.bounded

theorem nextId_notMem_present (hbalanced : Balanced ledger) : ledger.nextId ∉ ledger.present :=
  fun hmem => Nat.lt_irrefl _ (hbalanced.bounded _ (.inl hmem))

theorem nextId_notMem_retained (hbalanced : Balanced ledger) : ledger.nextId ∉ ledger.retained :=
  fun hmem => Nat.lt_irrefl _ (hbalanced.bounded _ (.inr hmem))

/-- A new id has not been seen before. -/
theorem nextId_final (hbalanced : Balanced ledger) : ledger.final ledger.nextId = none := by
  by_contra hsome
  exact hbalanced.nextId_notMem_retained
    (hbalanced.final_retained _ (Option.isSome_iff_ne_none.mpr hsome))

theorem register (hbalanced : Balanced ledger) (retain : Bool) {queued : List ContextId}
    (hqueued : queued.Perm (ledger.nextId :: ledger.queued)) :
    Balanced
      { ledger with
        queued
        active := ledger.active.filter (· ≠ ledger.nextId) ++ [ledger.nextId]
        retained := if retain then ledger.nextId :: ledger.retained else ledger.retained
        nextId := ledger.nextId + 1 } := by
  have hfresh := hbalanced.nextId_notMem_present
  have hactive : ledger.nextId ∉ ledger.active := fun hmem =>
    hfresh (List.mem_append_right _ hmem)
  rw [filter_ne_of_notMem hactive]
  have hmem_present : ∀ id, id ∈ ledger.running ++ (ledger.active ++ [ledger.nextId]) ↔
      id ∈ ledger.present ∨ id = ledger.nextId := by
    intro id
    simp [present, or_assoc]
  have hmem_retained : ∀ id,
      id ∈ (if retain then ledger.nextId :: ledger.retained else ledger.retained) →
        id = ledger.nextId ∨ id ∈ ledger.retained := by
    intro id hid
    cases retain with
    | false => exact .inr hid
    | true => exact List.mem_cons.mp hid
  constructor
  case queued =>
    exact hqueued.trans ((List.Perm.cons _ hbalanced.queued).trans
      (List.perm_append_singleton _ _).symm)
  case nodup =>
    have hperm : (ledger.running ++ (ledger.active ++ [ledger.nextId])).Perm
        (ledger.nextId :: ledger.present) := by
      rw [← List.append_assoc]
      exact List.perm_append_singleton _ _
    exact hperm.nodup_iff.mpr (List.nodup_cons.mpr ⟨hfresh, hbalanced.nodup⟩)
  case present_final =>
    intro id hid
    rcases (hmem_present id).mp hid with hold | rfl
    · exact hbalanced.present_final id hold
    · exact hbalanced.nextId_final
  case final_retained =>
    intro id hid
    have hretained := hbalanced.final_retained id hid
    cases retain with
    | false => exact hretained
    | true => exact List.mem_cons_of_mem _ hretained
  case retained_final =>
    intro id hid hgone
    have hgone' : ¬(id ∈ ledger.present ∨ id = ledger.nextId) := by
      intro hmem
      exact hgone ((hmem_present id).mpr hmem)
    rcases hmem_retained id hid with hnew | hold
    · exact absurd (.inr hnew) hgone'
    · exact hbalanced.retained_final id hold fun hmem => hgone' (.inl hmem)
  case final_terminal => exact hbalanced.final_terminal
  case bounded =>
    intro id hid
    apply Nat.lt_succ_of_le
    rcases hid with hpresent | hretained
    · rcases (hmem_present id).mp hpresent with hold | rfl
      · exact Nat.le_of_lt (hbalanced.bounded id (.inl hold))
      · exact Nat.le_refl _
    · rcases hmem_retained id hretained with rfl | hold
      · exact Nat.le_refl _
      · exact Nat.le_of_lt (hbalanced.bounded id (.inr hold))

/-- Moving an id between turn and queues leaves the same contexts present. -/
private theorem of_present_perm (hbalanced : Balanced ledger)
    {queued running active : List ContextId} (hqueued : queued.Perm active)
    (hpresent : (running ++ active).Perm ledger.present) :
    Balanced { ledger with queued, running, active } where
  queued := hqueued
  nodup := hpresent.nodup_iff.mpr hbalanced.nodup
  present_final id hid := hbalanced.present_final id (hpresent.mem_iff.mp hid)
  final_retained := hbalanced.final_retained
  retained_final id hid hgone :=
    hbalanced.retained_final id hid fun hmem => hgone (hpresent.mem_iff.mpr hmem)
  final_terminal := hbalanced.final_terminal
  bounded id hid := hbalanced.bounded id (hid.imp_left hpresent.mem_iff.mp)

theorem start (hbalanced : Balanced ledger) {id : ContextId} {queued : List ContextId}
    (hqueued : ledger.queued = id :: queued) (hrunning : ledger.running = []) :
    Balanced { ledger with queued, running := [id], active := ledger.active.filter (· ≠ id) } := by
  have hperm : (id :: queued).Perm ledger.active := hqueued ▸ hbalanced.queued
  have hnodup : ledger.active.Nodup := by
    simpa [present, hrunning] using hbalanced.nodup
  have hid : id ∉ queued := (List.nodup_cons.mp (hperm.nodup_iff.mpr hnodup)).1
  have hrest : queued.Perm (ledger.active.filter (· ≠ id)) := by
    have hfiltered := hperm.filter (· ≠ id)
    rwa [List.filter_cons_of_neg (by simp), filter_ne_of_notMem hid] at hfiltered
  apply hbalanced.of_present_perm hrest
  rw [present, hrunning]
  exact (List.Perm.cons id hrest.symm).trans hperm

theorem suspend (hbalanced : Balanced ledger) {id : ContextId} {queued : List ContextId}
    (hrunning : ledger.running = [id]) (hqueued : queued.Perm (id :: ledger.queued)) :
    Balanced
      { ledger with queued, running := [], active := ledger.active.filter (· ≠ id) ++ [id] } := by
  have hnodup := hbalanced.nodup
  rw [present, hrunning] at hnodup
  have hid : id ∉ ledger.active := (List.nodup_cons.mp hnodup).1
  rw [filter_ne_of_notMem hid]
  refine hbalanced.of_present_perm ?_ ?_
  · exact hqueued.trans ((List.Perm.cons _ hbalanced.queued).trans
      (List.perm_append_singleton _ _).symm)
  · rw [present, hrunning]
    exact List.perm_append_singleton _ _

theorem final_recording {ids : List ContextId} {state : ExecutionState} {id : ContextId} :
    (ledger.recording ids state id).isSome ↔
      id ∈ ids ∧ id ∈ ledger.retained ∨ (ledger.final id).isSome := by
  unfold recording
  split
  · simp [*]
  · rename_i hnot
    simp [hnot]

/-- Contexts that end leave the books in order. -/
private theorem ending (hbalanced : Balanced ledger) (ids : List ContextId)
    {queued active : List ContextId} {state : ExecutionState}
    (hterminal : state.isTerminal = true) (hqueued : queued.Perm active)
    (hpresent : ledger.present = ids ++ active) :
    Balanced
      { ledger with queued, running := [], active, final := ledger.recording ids state } := by
  have hnodup := hbalanced.nodup
  rw [hpresent] at hnodup
  have hmem : ∀ id, id ∈ ledger.present ↔ id ∈ ids ∨ id ∈ active := by
    intro id
    rw [hpresent, List.mem_append]
  constructor
  case queued => exact hqueued
  case nodup => exact (List.nodup_append.mp hnodup).2.1
  case present_final =>
    intro id hid
    have hother : id ∉ ids := fun hended =>
      (List.nodup_append.mp hnodup).2.2 id hended id hid rfl
    simp only [recording, hother, false_and, if_false]
    exact hbalanced.present_final id ((hmem id).mpr (.inr hid))
  case final_retained =>
    intro id hid
    rcases final_recording.mp hid with ⟨_, hretained⟩ | hold
    · exact hretained
    · exact hbalanced.final_retained id hold
  case retained_final =>
    intro id hid hgone
    apply final_recording.mpr
    by_cases hended : id ∈ ids
    · exact .inl ⟨hended, hid⟩
    · refine .inr (hbalanced.retained_final id hid fun hpresent => ?_)
      rcases (hmem id).mp hpresent with hended' | hactive
      · exact hended hended'
      · exact hgone hactive
  case final_terminal =>
    intro id final hfinal
    simp only [recording] at hfinal
    split at hfinal
    · rw [← Option.some.inj hfinal]
      exact hterminal
    · exact hbalanced.final_terminal id final hfinal
  case bounded =>
    intro id hid
    exact hbalanced.bounded id (hid.imp_left fun hactive => (hmem id).mpr (.inr hactive))

theorem conclude (hbalanced : Balanced ledger) {id : ContextId} {state : ExecutionState}
    (hterminal : state.isTerminal = true) (hrunning : ledger.running = [id]) :
    Balanced { ledger with running := [], final := ledger.recording [id] state } :=
  hbalanced.ending [id] hterminal hbalanced.queued (by rw [present, hrunning])

theorem abort (hbalanced : Balanced ledger) (hrunning : ledger.running = []) :
    Balanced
      { ledger with
        queued := []
        running := []
        active := []
        final := ledger.recording ledger.active .aborted } :=
  hbalanced.ending ledger.active rfl (List.Perm.refl []) (by simp [present, hrunning])

end Balanced

theorem Move.balanced {before after : Ledger} (hmove : Move before after)
    (hbalanced : Balanced before) : Balanced after := by
  cases hmove with
  | requeue queued hqueued => exact hbalanced.requeue hqueued
  | register retain queued hqueued => exact hbalanced.register retain hqueued
  | start id queued hqueued hrunning => exact hbalanced.start hqueued hrunning
  | suspend id queued hrunning hqueued => exact hbalanced.suspend hrunning hqueued
  | conclude id state hterminal hrunning => exact hbalanced.conclude hterminal hrunning
  | abort hrunning => exact hbalanced.abort hrunning

/-! ## What stays for ever -/

/-- Ids only grow, and what is known of a context that has ended stays known. -/
structure Continues (before after : Ledger) : Prop where
  nextId : before.nextId ≤ after.nextId
  retained : before.retained ⊆ after.retained
  ended : ∀ id < before.nextId, id ∉ before.present →
    id ∉ after.present ∧ after.final id = before.final id

namespace Continues

theorem refl (ledger : Ledger) : Continues ledger ledger where
  nextId := Nat.le_refl _
  retained := List.Subset.refl _
  ended _ _ hgone := ⟨hgone, rfl⟩

theorem trans {first second third : Ledger} (hleft : Continues first second)
    (hright : Continues second third) : Continues first third where
  nextId := Nat.le_trans hleft.nextId hright.nextId
  retained _ hid := hright.retained (hleft.retained hid)
  ended id hid hgone := by
    obtain ⟨hgone', hfinal⟩ := hleft.ended id hid hgone
    obtain ⟨hgone'', hfinal'⟩ :=
      hright.ended id (Nat.lt_of_lt_of_le hid hleft.nextId) hgone'
    exact ⟨hgone'', hfinal'.trans hfinal⟩

end Continues

theorem Move.continues {before after : Ledger} (hmove : Move before after)
    (hbalanced : Balanced before) : Continues before after := by
  cases hmove with
  | requeue queued hqueued =>
      exact ⟨Nat.le_refl _, List.Subset.refl _, fun _ _ hgone => ⟨hgone, rfl⟩⟩
  | register retain queued hqueued =>
      refine ⟨Nat.le_succ _, ?_, fun id hid hgone => ⟨?_, rfl⟩⟩
      · cases retain with
        | false => exact List.Subset.refl _
        | true => exact List.subset_cons_self _ _
      have hne : id ≠ before.nextId := Nat.ne_of_lt hid
      simp only [present, List.mem_append, not_or] at hgone ⊢
      simp [hgone.1, hgone.2, hne]
  | start id queued hqueued hrunning =>
      refine ⟨Nat.le_refl _, List.Subset.refl _, fun other _ hgone => ⟨?_, rfl⟩⟩
      have hactive : id ∈ before.active :=
        hbalanced.queued.subset (hqueued ▸ List.mem_cons_self)
      simp only [present, hrunning, List.nil_append] at hgone
      have hne : other ≠ id := by
        rintro rfl
        exact hgone hactive
      simp [present, hne, hgone]
  | suspend id queued hrunning hqueued =>
      refine ⟨Nat.le_refl _, List.Subset.refl _, fun other _ hgone => ⟨?_, rfl⟩⟩
      simp only [present, hrunning, List.mem_append, List.mem_singleton, not_or] at hgone
      simp [present, hgone.1, hgone.2]
  | conclude id state hterminal hrunning =>
      refine ⟨Nat.le_refl _, List.Subset.refl _, fun other _ hgone => ?_⟩
      simp only [present, hrunning, List.mem_append, List.mem_singleton, not_or] at hgone
      exact ⟨by simpa [present] using hgone.2, by simp [recording, hgone.1]⟩
  | abort hrunning =>
      refine ⟨Nat.le_refl _, List.Subset.refl _, fun other _ hgone => ?_⟩
      simp only [present, hrunning, List.nil_append] at hgone
      exact ⟨List.not_mem_nil, by simp [recording, hgone]⟩

/-- Whatever the moves, the books stay balanced and nothing that ended comes back. -/
theorem Moves.balanced_and_continues {before after : Ledger} (hmoves : Moves before after)
    (hbalanced : Balanced before) : Balanced after ∧ Continues before after := by
  induction hmoves with
  | refl => exact ⟨hbalanced, Continues.refl before⟩
  | tail _ hmove ih =>
      obtain ⟨hmiddle, hcontinues⟩ := ih
      exact ⟨hmove.balanced hmiddle, hcontinues.trans (hmove.continues hmiddle)⟩

/-- A final state is final. -/
theorem Continues.final_eq_some {before after : Ledger} (hcontinues : Continues before after)
    (hbalanced : Balanced before) {id : ContextId} {state : ExecutionState}
    (hfinal : before.final id = some state) : after.final id = some state := by
  have hretained := hbalanced.final_retained id (by simp [hfinal])
  have hgone : id ∉ before.present := by
    intro hpresent
    rw [hbalanced.present_final id hpresent] at hfinal
    exact Option.some_ne_none state hfinal.symm
  rw [(hcontinues.ended id (hbalanced.bounded id (.inr hretained)) hgone).2, hfinal]

end Ledger

end ScriptBundle
