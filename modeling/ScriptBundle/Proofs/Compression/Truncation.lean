import ScriptBundle.Proofs.Compression.RoundTrip

/-!
# Streams that end too early

Decompression does not look behind the end of a stream: whatever follows there, it comes
to the same.  So no stream is complete that is a part of another one, and a stream that is
cut anywhere is seen to be cut.
-/

namespace ScriptBundle.Compression

/-- The source with more bytes behind it. -/
def BitSource.extend (source : BitSource) (more : Bytes) : BitSource :=
  { source with rest := source.rest ++ more }

variable {α β : Type}

/-- What the parser reads, it also reads in front of further bytes, which it leaves. -/
def Extends (parser : BitSource → Except Defect (α × BitSource)) : Prop :=
  ∀ source value after, parser source = .ok (value, after) →
    ∀ more, parser (source.extend more) = .ok (value, after.extend more)

theorem extends_pure (value : α) : Extends fun source => pure (value, source) := by
  intro source result after hread more
  cases hread
  rfl

theorem extends_throw (defect : Defect) :
    Extends fun _ => (throw defect : Except Defect (α × BitSource)) := by
  intro source result after hread
  cases hread

theorem extends_bind {parser : BitSource → Except Defect (α × BitSource)}
    {next : α → BitSource → Except Defect (β × BitSource)} (hfirst : Extends parser)
    (hnext : ∀ value, Extends (next value)) :
    Extends fun source => (do
      let (value, source) ← parser source
      next value source) := by
  intro source result after hread more
  obtain ⟨⟨value, middle⟩, hvalue, hresult⟩ := bind_eq_ok_iff.mp hread
  have hlater := hnext value middle result after hresult more
  simp only [hfirst source value middle hvalue more, ok_bind]
  exact hlater

theorem extends_ite {condition : Prop} [Decidable condition]
    {first second : BitSource → Except Defect (α × BitSource)} (hfirst : Extends first)
    (hsecond : Extends second) :
    Extends fun source => if condition then first source else second source := by
  by_cases hcondition : condition
  · simp only [if_pos hcondition]
    exact hfirst
  · simp only [if_neg hcondition]
    exact hsecond

namespace BitSource

theorem extends_bit : Extends bit := by
  rintro ⟨pending, rest⟩ value after hread more
  cases pending with
  | cons first pending =>
      cases hread
      rfl
  | nil =>
      cases rest with
      | nil => cases hread
      | cons byte rest =>
          cases hread
          rfl

theorem extends_number (count : Nat) : Extends (number count) := by
  induction count with
  | zero => exact extends_pure 0
  | succ count ih =>
      exact extends_bind extends_bit fun first =>
        extends_bind ih fun high => extends_pure (first.toNat + 2 * high)

end BitSource

open BitSource

theorem PrefixCode.extends_decodeFrom (symbols : Array Nat) (counts : List Nat)
    (first index read : Nat) : Extends (decodeFrom symbols counts first index read) := by
  induction counts generalizing first index read with
  | nil => exact extends_throw .broken
  | cons count counts ih =>
      intro source symbol after hread more
      obtain ⟨⟨bit, opened⟩, hbit, hread⟩ := bind_eq_ok_iff.mp hread
      simp only [decodeFrom, extends_bit _ _ _ hbit more, ok_bind]
      by_cases hshort : 2 * read + bit.toNat < 2 * first + count
      · simp only [if_pos hshort] at hread ⊢
        cases hsymbol : symbols[index + (2 * read + bit.toNat - 2 * first)]? with
        | none => simp [hsymbol] at hread
        | some found =>
            simp only [hsymbol] at hread ⊢
            cases hread
            rfl
      · simp only [if_neg hshort] at hread ⊢
        exact ih _ _ _ _ _ _ hread more

theorem PrefixCode.extends_decode (code : PrefixCode) : Extends code.decode :=
  extends_decodeFrom _ _ _ _ _

theorem SymbolGroup.extends_member (group : SymbolGroup) : Extends group.member :=
  extends_bind (extends_number _) fun extra => extends_pure (group.base + extra)

theorem extends_readCopy (distances : PrefixCode) (symbol : Nat) :
    Extends (readCopy distances symbol) := by
  intro source copy after hread more
  unfold readCopy at hread ⊢
  cases hlengths : lengthGroups[symbol - 257]? with
  | none => simp [hlengths] at hread
  | some lengthGroup =>
      simp only [hlengths, bind_eq_ok_iff] at hread
      obtain ⟨⟨length, _⟩, hlength, ⟨distanceSymbol, _⟩, hsymbol, hread⟩ := hread
      cases hdistances : distanceGroups[distanceSymbol]? with
      | none => simp [hdistances] at hread
      | some distanceGroup =>
          simp only [hdistances, bind_eq_ok_iff] at hread
          obtain ⟨⟨distance, _⟩, hdistance, hread⟩ := hread
          cases hread
          simp only [lengthGroup.extends_member _ _ _ hlength more,
            distances.extends_decode _ _ _ hsymbol more,
            distanceGroup.extends_member _ _ _ hdistance more, hdistances, ok_bind]
          rfl

theorem extends_readNumbers (width count : Nat) : Extends (readNumbers width count) := by
  induction count with
  | zero => exact extends_pure []
  | succ count ih =>
      exact extends_bind (extends_number width) fun first =>
        extends_bind ih fun others => extends_pure (first :: others)

theorem extends_readLengths (code : PrefixCode) (wanted fuel : Nat) (lengths : List Nat) :
    Extends (readLengths code wanted fuel lengths) := by
  induction fuel generalizing lengths with
  | zero => exact extends_ite (extends_pure _) (extends_throw _)
  | succ fuel ih =>
      have hrepeat (repeated width least : Nat) :=
        extends_bind (extends_number width) fun extra =>
          ih (List.replicate (least + extra) repeated ++ lengths)
      refine extends_ite (extends_ite (extends_pure _) (extends_throw _)) ?_
      intro source result after hread more
      obtain ⟨⟨symbol, opened⟩, hsymbol, hread⟩ := bind_eq_ok_iff.mp hread
      simp only [code.extends_decode _ _ _ hsymbol more, ok_bind]
      by_cases hsmall : symbol < 16
      · simp only [if_pos hsmall] at hread ⊢
        exact ih _ _ _ _ hread more
      simp only [if_neg hsmall] at hread ⊢
      by_cases hlast : symbol = 16
      · subst hlast
        cases lengths with
        | nil => cases hread
        | cons last lengths => exact hrepeat last 2 3 _ _ _ hread more
      by_cases hzeros : symbol = 17
      · subst hzeros
        exact hrepeat 0 3 3 _ _ _ hread more
      split at hread
      · exact (hlast rfl).elim
      · exact (hlast rfl).elim
      · exact (hzeros rfl).elim
      · exact hrepeat 0 7 11 _ _ _ hread more

theorem extends_readCodes : Extends readCodes := by
  intro source codes after hread more
  unfold readCodes at hread ⊢
  simp only [bind_eq_ok_iff] at hread
  obtain ⟨⟨literals, _⟩, hliterals, ⟨distances, _⟩, hdistances, ⟨stored, _⟩, hstored, hread⟩ :=
    hread
  simp only [extends_number 5 _ _ _ hliterals more, extends_number 5 _ _ _ hdistances more,
    extends_number 4 _ _ _ hstored more, ok_bind]
  simp only at hread
  split at hread
  · cases hread
  rename_i hcounts
  simp only [bind_eq_ok_iff] at hread
  obtain ⟨⟨widths, _⟩, hwidths, hread⟩ := hread
  simp only [if_neg hcounts, extends_readNumbers 3 _ _ _ _ hwidths more, ok_bind]
  simp only at hread
  split at hread
  · rename_i lengthCode hlengthCode
    obtain ⟨⟨lengths, _⟩, hlengths, hread⟩ := bind_eq_ok_iff.mp hread
    simp only [extends_readLengths _ _ _ _ _ _ _ hlengths more, ok_bind]
    simp only at hread
    split at hread
    · rename_i literalCode hliteralCode
      split at hread
      · rename_i distanceCode hdistanceCode
        cases hread
        rfl
      · cases hread
    · cases hread
  · cases hread

theorem extends_readStoredLength : Extends readStoredLength := by
  have haligned : Extends fun source => source.align.number 16 :=
    fun source length after hread more => extends_number 16 source.align length after hread more
  have hcheck (length complement : Nat) : Extends fun source =>
      if length + complement = 0xFFFF then pure (length, source) else throw .broken :=
    extends_ite (extends_pure length) (extends_throw .broken)
  exact extends_bind haligned fun length => extends_bind (extends_number 16) (hcheck length)

/-! ## Blocks -/

/-- Symbols are decompressed alike with more input behind them and with more fuel. -/
theorem inflateSymbols_extend {literals distances : PrefixCode} {fuel fuel' : Nat}
    {output output' : Array UInt8} {source after : BitSource} (hfuel : fuel ≤ fuel')
    (hinflate : inflateSymbols literals distances fuel output source = ⟨output', .ok after⟩)
    (more : Bytes) :
    inflateSymbols literals distances fuel' output (source.extend more) =
      ⟨output', .ok (after.extend more)⟩ := by
  induction fuel generalizing fuel' output source with
  | zero => simp [inflateSymbols] at hinflate
  | succ fuel ih =>
      obtain ⟨fuel', rfl⟩ := Nat.exists_eq_add_of_le' (Nat.lt_of_lt_of_le (Nat.succ_pos fuel) hfuel)
      have hless : fuel ≤ fuel' := Nat.le_of_succ_le_succ hfuel
      simp only [inflateSymbols] at hinflate ⊢
      split at hinflate
      · cases hinflate
      rename_i symbol middle hsymbol
      simp only [literals.extends_decode _ _ _ hsymbol more]
      by_cases hliteral : symbol < endOfBlock
      · rw [if_pos hliteral] at hinflate ⊢
        exact ih hless hinflate
      rw [if_neg hliteral] at hinflate ⊢
      by_cases hend : symbol = endOfBlock
      · rw [if_pos hend] at hinflate ⊢
        cases hinflate
        rfl
      rw [if_neg hend] at hinflate ⊢
      split at hinflate
      · cases hinflate
      rename_i length distance last hcopy
      simp only [extends_readCopy _ _ _ _ _ hcopy more]
      exact ih hless hinflate

theorem BitSource.size_le_size_extend (source : BitSource) (more : Bytes) :
    source.size ≤ (source.extend more).size := by
  simp only [size, extend, List.length_append]
  omega

/-- Blocks are decompressed alike with more input behind them. -/
theorem inflateBlock_extend {output output' : Array UInt8} {source after : BitSource} {last : Bool}
    (hinflate : inflateBlock output source = (last, ⟨output', .ok after⟩)) (more : Bytes) :
    inflateBlock output (source.extend more) = (last, ⟨output', .ok (after.extend more)⟩) := by
  have hheader := extends_bind extends_bit fun last =>
    extends_bind (extends_number 2) fun kind => extends_pure (last, kind)
  unfold inflateBlock at hinflate ⊢
  simp only at hinflate
  split at hinflate
  · cases hinflate
  · rename_i stored opened hopened
    simp only [hheader _ _ _ hopened more]
    split at hinflate
    · cases hinflate
    rename_i length content hlength
    simp only [extends_readStoredLength _ _ _ hlength more]
    split at hinflate
    · rename_i henough
      have hfits : length ≤ content.rest.length := by
        rw [← henough]
        exact List.length_take_le' _ _
      have htake : (content.extend more).rest.take length = content.rest.take length :=
        List.take_append_of_le_length hfits
      have hdrop : (content.extend more).rest.drop length = content.rest.drop length ++ more :=
        List.drop_append_of_le_length hfits
      cases hinflate
      rw [htake, hdrop, if_pos henough]
      rfl
    · cases hinflate
  · rename_i fixed opened hopened
    simp only [hheader _ _ _ hopened more]
    obtain ⟨rfl, hsymbols⟩ := Prod.mk.inj hinflate
    rw [inflateSymbols_extend (Nat.succ_le_succ (opened.size_le_size_extend more)) hsymbols more]
  · rename_i dynamic opened hopened
    simp only [hheader _ _ _ hopened more]
    split at hinflate
    · cases hinflate
    rename_i literals distances coded hcodes
    simp only [extends_readCodes _ _ _ hcodes more]
    obtain ⟨rfl, hsymbols⟩ := Prod.mk.inj hinflate
    rw [inflateSymbols_extend (Nat.succ_le_succ (coded.size_le_size_extend more)) hsymbols more]
  · cases hinflate

theorem inflateBlocks_extend {fuel fuel' : Nat} {output output' : Array UInt8}
    {source after : BitSource} (hfuel : fuel ≤ fuel')
    (hinflate : inflateBlocks fuel output source = ⟨output', .ok after⟩) (more : Bytes) :
    inflateBlocks fuel' output (source.extend more) = ⟨output', .ok (after.extend more)⟩ := by
  induction fuel generalizing fuel' output source with
  | zero => simp [inflateBlocks] at hinflate
  | succ fuel ih =>
      obtain ⟨fuel', rfl⟩ := Nat.exists_eq_add_of_le' (Nat.lt_of_lt_of_le (Nat.succ_pos fuel) hfuel)
      simp only [inflateBlocks] at hinflate ⊢
      rcases hblock : inflateBlock output source with ⟨last, ⟨between, defect | middle⟩⟩
      · simp [hblock] at hinflate
      · rw [inflateBlock_extend hblock more]
        rw [hblock] at hinflate
        cases last with
        | true =>
            cases hinflate
            rfl
        | false => exact ih (Nat.le_of_succ_le_succ hfuel) hinflate

theorem inflate_append {bytes : Bytes} {output : Array UInt8} {after : BitSource}
    (hinflate : inflate bytes = ⟨output, .ok after⟩) (more : Bytes) :
    inflate (bytes ++ more) = ⟨output, .ok (after.extend more)⟩ := by
  refine inflateBlocks_extend ?_ hinflate more
  rw [List.length_append]
  omega

/-! ## Whole streams -/

/-- The stream begins with a header, blocks that inflate to the payload up to their end and
without an error, and the checksum of the payload.  What follows is `trailing`. -/
def Inflates (stream payload trailing : Bytes) : Prop :=
  ∃ method flags blocks source found, stream = method :: flags :: blocks ∧
    isHeader method flags = true ∧ inflate blocks = ⟨payload.toArray, .ok source⟩ ∧
    source.rest = found ++ trailing ∧ found.length = 4 ∧
    littleEndianValue found.reverse = checksum payload

/-- Decompression meets no defect just if the stream inflates. -/
theorem decompress_eq_iff {stream payload : Bytes} :
    decompress stream = ⟨payload, none⟩ ↔ ∃ trailing, Inflates stream payload trailing := by
  constructor
  · intro hdecompress
    rcases stream with _ | ⟨method, _ | ⟨flags, blocks⟩⟩
    · cases hdecompress
    · cases hdecompress
    rw [decompress] at hdecompress
    split at hdecompress
    · rename_i hheader
      rcases hinflate : inflate blocks with ⟨output, defect | source⟩
      · simp [hinflate] at hdecompress
      · simp only [hinflate] at hdecompress
        split at hdecompress
        · cases hdecompress
        · split at hdecompress
          · rename_i hlength hchecksum
            cases hdecompress
            refine ⟨source.rest.drop 4, method, flags, blocks, source, source.rest.take 4, rfl,
              hheader, ?_, (List.take_append_drop 4 _).symm, ?_, hchecksum⟩
            · rw [hinflate, Array.toArray_toList]
            · have hfour := List.length_take_le 4 source.rest
              omega
          · cases hdecompress
    · cases hdecompress
  · rintro ⟨trailing, method, flags, blocks, source, found, rfl, hheader, hinflate, hrest, hlength,
      hchecksum⟩
    have htake : source.rest.take 4 = found := by
      rw [hrest, ← hlength, List.take_left]
    simp only [decompress, hheader, if_true, hinflate, htake, hlength, Nat.lt_irrefl, if_false,
      hchecksum]

/-- What follows the end does not matter. -/
theorem Inflates.append {stream payload trailing : Bytes}
    (hinflates : Inflates stream payload trailing) (more : Bytes) :
    Inflates (stream ++ more) payload (trailing ++ more) := by
  obtain ⟨method, flags, blocks, source, found, rfl, hheader, hinflate, hrest, hlength,
    hchecksum⟩ := hinflates
  refine ⟨method, flags, blocks ++ more, source.extend more, found, rfl, hheader,
    inflate_append hinflate more, ?_, hlength, hchecksum⟩
  rw [BitSource.extend, hrest, List.append_assoc]

/-- A stream inflates in one way. -/
theorem Inflates.unique {stream payload payload' trailing trailing' : Bytes}
    (hfirst : Inflates stream payload trailing) (hsecond : Inflates stream payload' trailing') :
    payload = payload' ∧ trailing = trailing' := by
  obtain ⟨method, flags, blocks, source, found, rfl, -, hinflate, hrest, hlength, -⟩ := hfirst
  obtain ⟨_, _, _, source', found', hstream, -, hinflate', hrest', hlength', -⟩ := hsecond
  cases hstream
  cases hinflate.symm.trans hinflate'
  obtain ⟨rfl, rfl⟩ :=
    List.append_inj (hrest.symm.trans hrest') (hlength.trans hlength'.symm)
  exact ⟨rfl, rfl⟩

/-- A stream that is cut before its end has a defect. -/
theorem exists_defect_of_cut {stream payload : Bytes} (hinflates : Inflates stream payload [])
    {count : Nat} (hcount : count < stream.length) :
    ∃ output defect, decompress (stream.take count) = ⟨output, some defect⟩ := by
  rcases hcut : decompress (stream.take count) with ⟨output, _ | defect⟩
  · obtain ⟨trailing, hpart⟩ := decompress_eq_iff.mp hcut
    have hwhole := hpart.append (stream.drop count)
    rw [List.take_append_drop] at hwhole
    obtain ⟨-, htrailing⟩ := hinflates.unique hwhole
    have hnone : stream.drop count = [] := (List.append_eq_nil_iff.mp htrailing.symm).2
    exact absurd (List.drop_eq_nil_iff.mp hnone) (Nat.not_le.mpr hcount)
  · exact ⟨output, defect, rfl⟩

/-- A stream of stored blocks ends with its checksum. -/
theorem inflates_stored (data : Bytes) : Inflates (compress 0 data) data [] := by
  let found := (littleEndian 4 (checksum data)).reverse
  have hstream : compress 0 data = 0x78 :: 0x9C :: (storedBlocks data ++ found) := rfl
  refine ⟨0x78, 0x9C, _, .ofBytes found, found, hstream, by decide, inflate_storedBlocks _ _,
    (List.append_nil found).symm, ?_, ?_⟩
  · rw [List.length_reverse, littleEndian_length]
  · rw [List.reverse_reverse, littleEndianValue_littleEndian, Nat.mod_eq_of_lt (checksum_lt data)]

end ScriptBundle.Compression
