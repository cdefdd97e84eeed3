import ScriptBundle.Proofs.Compression.RoundTrip
import ScriptBundle.Streaming.Library

/-!
# Loops over short transfers

What is relied on of a compression library is said in terms of the data that a
state stands for: a compressor has taken some data, and a decompressor will give
some data and then end or meet a defect.  Every call moves the data by a piece,
and the loops over the calls move it by as much as they were asked to, whatever
the sizes of the pieces.
-/

namespace ScriptBundle

variable {σ τ : Type}

/-- What is relied on of a compressor, where `Took level state data` says that one
that was started at `level` and is now in `state` has taken `data`. -/
structure Deflater.Contract (deflater : Deflater σ) (Took : Nat → σ → Bytes → Prop) : Prop where
  start : ∀ level ≤ maxLevel, Took level (deflater.start level) []
  done : ∀ {level state taken data count next}, Took level state taken → data ≠ [] →
    deflater.offer state data = (.done count, next) →
    0 < count ∧ count ≤ data.length ∧ Took level next (taken ++ data.take count)
  interrupted : ∀ {level state taken data next}, Took level state taken →
    deflater.offer state data = (.interrupted, next) → Took level next taken
  not_failed : ∀ {level state taken data error next}, Took level state taken → data ≠ [] →
    deflater.offer state data ≠ (.failed error, next)

/-- What is relied on of a decompressor, where `Gives state data damaged` says that
one in `state` will give `data`, and that a defect follows if it is `damaged`. -/
structure Inflater.Contract (inflater : Inflater τ) (Gives : τ → Bytes → Bool → Prop) : Prop where
  done : ∀ {state data damaged count piece next}, Gives state data damaged → 0 < count →
    inflater.draw state count = (.done piece, next) →
    ∃ rest, data = piece ++ rest ∧ piece.length ≤ count ∧ Gives next rest damaged ∧
      (piece = [] → rest = [] ∧ damaged = false)
  interrupted : ∀ {state data damaged count next}, Gives state data damaged →
    inflater.draw state count = (.interrupted, next) → Gives next data damaged
  failed : ∀ {state data damaged count error next}, Gives state data damaged → 0 < count →
    inflater.draw state count = (.failed error, next) → data = [] ∧ damaged = true

/-- A decompressor that gives what a stream decompresses to, as far as that can be
handed out. -/
structure Inflater.Decompresses (inflater : Inflater τ) (Gives : τ → Bytes → Bool → Prop) :
    Prop where
  contract : inflater.Contract Gives
  start : ∀ stream, Gives (inflater.start stream)
    (BlockReader.readable (Compression.decompress stream))
    (Compression.decompress stream).defect.isSome

/-- What is relied on of a compressor and a decompressor: the one undoes the other. -/
structure Compression.Contract (deflater : Deflater σ) (inflater : Inflater τ)
    (Took : Nat → σ → Bytes → Prop) (Gives : τ → Bytes → Bool → Prop) : Prop where
  compresses : deflater.Contract Took
  decompresses : inflater.Contract Gives
  undoes : ∀ {level state taken}, Took level state taken →
    ∃ stream, deflater.finish state = .ok stream ∧ Gives (inflater.start stream) taken false

/-- Everything that is offered is taken in the end. -/
theorem Deflater.Contract.feed {deflater : Deflater σ} {Took : Nat → σ → Bytes → Prop}
    (hcontract : deflater.Contract Took) {level : Nat} {state : σ} {taken : Bytes}
    (htook : Took level state taken) (data : Bytes) :
    ∃ last, deflater.feed state data = (data.length, last, none) ∧
      Took level last (taken ++ data) := by
  fun_induction Deflater.feed deflater state data generalizing taken with
  | case1 state => exact ⟨state, rfl, by rwa [List.append_nil]⟩
  | case2 state data hdata next hoffer =>
      have hcount := (hcontract.done htook hdata hoffer).1
      exact absurd hcount (Nat.lt_irrefl 0)
  | case3 state data hdata count next hoffer accepted last failure hfeed ih =>
      obtain ⟨-, hcount, hnext⟩ := hcontract.done htook hdata hoffer
      obtain ⟨_, hrest, hlast⟩ := ih hnext
      obtain ⟨rfl, rfl, rfl⟩ := hfeed.symm.trans hrest
      refine ⟨last, ?_, ?_⟩
      · rw [List.length_drop, Nat.add_sub_cancel' hcount]
      · rwa [List.append_assoc, List.take_append_drop] at hlast
  | case4 state data hdata next hoffer ih => exact ih (hcontract.interrupted htook hoffer)
  | case5 state data hdata error next hoffer =>
      exact absurd hoffer (hcontract.not_failed htook hdata)

/-- What comes next is given up to what was asked for.  Whoever asks for more than
there is meets the defect, if there is one. -/
theorem Inflater.Contract.fill {inflater : Inflater τ} {Gives : τ → Bytes → Bool → Prop}
    (hcontract : inflater.Contract Gives) {state : τ} {data : Bytes} {damaged : Bool}
    (hgives : Gives state data damaged) (count : Nat) :
    ∃ last failed, inflater.fill state count = (data.take count, last, failed) ∧
      failed = (damaged && decide (data.length < count)) ∧
      (failed = false → Gives last (data.drop count) damaged) := by
  fun_induction Inflater.fill inflater state count generalizing data with
  | case1 state => exact ⟨state, false, by simp, by simp, fun _ => hgives⟩
  | case2 state count hcount next hdraw =>
      obtain ⟨rest, hdata, -, hnext, hend⟩ :=
        hcontract.done hgives (Nat.pos_of_ne_zero hcount) hdraw
      obtain ⟨rfl, rfl⟩ := hend rfl
      obtain rfl : data = [] := hdata
      exact ⟨next, false, by simp, by simp, fun _ => by simpa using hnext⟩
  | case3 state count hcount byte piece next hdraw others last failed hfill ih =>
      obtain ⟨rest, rfl, hpiece, hnext, -⟩ :=
        hcontract.done hgives (Nat.pos_of_ne_zero hcount) hdraw
      obtain ⟨_, _, hrest, hfailed, hlast⟩ := ih hnext
      obtain ⟨rfl, rfl, rfl⟩ := hfill.symm.trans hrest
      refine ⟨last, failed, ?_, ?_, ?_⟩
      · rw [List.take_append, List.take_of_length_le hpiece]
      · have hshort : rest.length < count - (byte :: piece).length ↔
            (byte :: piece ++ rest).length < count := by
          rw [List.length_append]
          omega
        rw [hfailed, decide_eq_decide.mpr hshort]
      · rw [List.drop_append, List.drop_eq_nil_of_le hpiece, List.nil_append]
        exact hlast
  | case4 state count hcount next hdraw ih => exact ih (hcontract.interrupted hgives hdraw)
  | case5 state count hcount error next hdraw =>
      obtain ⟨rfl, rfl⟩ := hcontract.failed hgives (Nat.pos_of_ne_zero hcount) hdraw
      exact ⟨next, true, by simp, by simp [Nat.pos_of_ne_zero hcount], by simp⟩

/-- The compressor of this library holds its level and the data that it took. -/
theorem Deflater.inPieces_contract (size : Nat) :
    (inPieces size).Contract fun level state taken => state = (level, taken) where
  start _ _ := rfl
  done {level state taken data count next} htook hdata hoffer := by
    obtain rfl := htook
    cases hoffer
    have hlength := List.length_pos_iff.mpr hdata
    refine ⟨by omega, Nat.min_le_left _ _, ?_⟩
    rw [Nat.min_comm, ← List.take_eq_take_min]
  interrupted _ hoffer := by cases hoffer
  not_failed _ _ := nofun

/-- The decompressor of this library holds what it will give. -/
theorem Inflater.inPieces_contract (size : Nat) :
    (inPieces size).Contract fun state data damaged => state = (data, damaged) where
  done {state data damaged count piece next} hgives hcount hdraw := by
    obtain rfl := hgives
    simp only [inPieces] at hdraw
    split at hdraw
    · cases hdraw
    · rename_i hgoes
      cases hdraw
      refine ⟨_, (List.take_append_drop _ _).symm, ?_, rfl, ?_⟩
      · rw [List.length_take]
        omega
      · intro hnone
        have hmoved : min count (size + 1) ≠ 0 := by omega
        obtain rfl := (List.take_eq_nil_iff.mp hnone).resolve_left hmoved
        simpa using hgoes
  interrupted _ hdraw := by
    simp only [inPieces] at hdraw
    split at hdraw <;> cases hdraw
  failed {state data damaged count error next} hgives _ hdraw := by
    obtain rfl := hgives
    simp only [inPieces] at hdraw
    split at hdraw
    · assumption
    · cases hdraw

theorem Inflater.inPieces_decompresses (size : Nat) :
    (inPieces size).Decompresses fun state data damaged => state = (data, damaged) where
  contract := inPieces_contract size
  start _ := rfl

/-- The two halves of this library keep the contract, whatever their pieces are. -/
theorem Compression.inPieces_contract (offered drawn : Nat) :
    Contract (.inPieces offered) (.inPieces drawn) (fun level state taken => state = (level, taken))
      fun state data damaged => state = (data, damaged) where
  compresses := Deflater.inPieces_contract offered
  decompresses := Inflater.inPieces_contract drawn
  undoes {level state taken} htook := by
    obtain rfl := htook
    refine ⟨compress level taken, rfl, ?_⟩
    simp only [Inflater.inPieces, decompress_compress, BlockReader.readable, Option.isSome_none]

end ScriptBundle
