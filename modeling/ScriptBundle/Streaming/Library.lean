import ScriptBundle.Block

/-!
# Compression in pieces

A compressor is offered data and a decompressor is asked for data, and one call
need not do all it was called for: it may move fewer bytes, be interrupted or
fail.  How much a call moves is the library's own affair, and so is its state.
What a library promises is that calls do not go on for ever, and that is what
lets the loops over them end.
-/

namespace ScriptBundle

/-- What a call came to. -/
inductive Transfer (α : Type) where
  | done (moved : α)
  | interrupted
  | failed (error : String)
  deriving DecidableEq, Repr

/-- A compressor. -/
structure Deflater (σ : Type) where
  start : (level : Nat) → σ
  /-- Takes some of the data and says how many bytes that were. -/
  offer : σ → (data : Bytes) → Transfer Nat × σ
  /-- The compressed stream of all that was taken. -/
  finish : σ → Except String Bytes
  /-- A bound on the interruptions in a row. -/
  patience : σ → Nat
  patience_lt : ∀ {state data next},
    offer state data = (.interrupted, next) → patience next < patience state

/-- A decompressor. -/
structure Inflater (τ : Type) where
  start : (stream : Bytes) → τ
  /-- Gives at most `count` of the bytes that come next.  None are given at the
  end. -/
  draw : τ → (count : Nat) → Transfer Bytes × τ
  /-- A bound on the calls before the end. -/
  pending : τ → Nat
  pending_lt_of_done : ∀ {state count piece next},
    draw state count = (.done piece, next) → piece ≠ [] → pending next < pending state
  pending_lt_of_interrupted : ∀ {state count next},
    draw state count = (.interrupted, next) → pending next < pending state

namespace Deflater

/-- What is said of a compressor that takes nothing of what it is offered. -/
def stuckMessage : String := "compressor accepted no input"

/-- Offers data until all of it is taken or a call fails: the number of bytes
taken, the state after that, and the failure. -/
def feed {σ : Type} (deflater : Deflater σ) (state : σ) (data : Bytes) :
    Nat × σ × Option String :=
  if data = [] then (0, state, none)
  else
    match _hoffer : deflater.offer state data with
    | (.done 0, next) => (0, next, some stuckMessage)
    | (.done (count + 1), next) =>
        let (accepted, last, failure) := deflater.feed next (data.drop (count + 1))
        (count + 1 + accepted, last, failure)
    | (.interrupted, next) => deflater.feed next data
    | (.failed error, next) => (0, next, some error)
termination_by (data.length, deflater.patience state)
decreasing_by
  · have hlength : 0 < data.length := List.length_pos_iff.mpr ‹_›
    simp only [List.length_drop]
    exact Prod.Lex.left _ _ (by omega)
  · exact Prod.Lex.right _ (deflater.patience_lt _hoffer)

/-- The compressor of this library, which takes at most `size + 1` bytes at once. -/
def inPieces (size : Nat) : Deflater (Nat × Bytes) where
  start level := (level, [])
  offer state data :=
    (.done (min data.length (size + 1)), (state.1, state.2 ++ data.take (size + 1)))
  finish state := .ok (Compression.compress state.1 state.2)
  patience _ := 0
  patience_lt hoffer := by cases hoffer

end Deflater

namespace Inflater

/-- Asks for data until there are `count` bytes, the stream ends or a call fails:
the bytes, the state after that, and whether a call failed. -/
def fill {τ : Type} (inflater : Inflater τ) (state : τ) (count : Nat) : Bytes × τ × Bool :=
  if count = 0 then ([], state, false)
  else
    match _hdraw : inflater.draw state count with
    | (.done [], next) => ([], next, false)
    | (.done (byte :: piece), next) =>
        let (others, last, failed) := inflater.fill next (count - (byte :: piece).length)
        (byte :: piece ++ others, last, failed)
    | (.interrupted, next) => inflater.fill next count
    | (.failed _, next) => ([], next, true)
termination_by inflater.pending state
decreasing_by
  · exact inflater.pending_lt_of_done _hdraw (List.cons_ne_nil _ _)
  · exact inflater.pending_lt_of_interrupted _hdraw

/-- Getting all that was asked for takes at least one call, unless nothing was. -/
theorem pending_fill_add_min_le {τ : Type} (inflater : Inflater τ) (state : τ) (count : Nat)
    (hfull : count ≤ (inflater.fill state count).1.length) :
    inflater.pending (inflater.fill state count).2.1 + min count 1 ≤ inflater.pending state := by
  fun_induction fill inflater state count with
  | case1 => simp
  | case2 state count hcount => simp_all
  | case3 state count hcount byte piece next hdraw others last failed hothers ih =>
      have hnext := inflater.pending_lt_of_done hdraw (List.cons_ne_nil _ _)
      simp only [hothers, List.length_append] at ih hfull ⊢
      have hlast := ih (by omega)
      omega
  | case4 state count hcount next hdraw ih =>
      have hnext := inflater.pending_lt_of_interrupted hdraw
      have hlast := ih hfull
      omega
  | case5 state count hcount => simp_all

/-- The decompressor of this library, which gives at most `size + 1` bytes at once. -/
def inPieces (size : Nat) : Inflater (Bytes × Bool) where
  start stream :=
    let decompressed := Compression.decompress stream
    (BlockReader.readable decompressed, decompressed.defect.isSome)
  draw state count :=
    if state.1 = [] ∧ state.2 then (.failed "corrupt deflate stream", state)
    else
      let moved := min count (size + 1)
      (.done (state.1.take moved), (state.1.drop moved, state.2))
  pending state := state.1.length
  pending_lt_of_done {state count piece next} hdraw hpiece := by
    split at hdraw
    · cases hdraw
    · cases hdraw
      have hlength := List.length_pos_iff.mpr hpiece
      simp only [List.length_take, List.length_drop] at hlength ⊢
      omega
  pending_lt_of_interrupted hdraw := by
    split at hdraw <;> cases hdraw

end Inflater

end ScriptBundle
