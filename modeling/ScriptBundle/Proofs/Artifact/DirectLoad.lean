import ScriptBundle.Proofs.Artifact.Load

/-!
# Loading agrees with decoding

An engine that loads an image streams the bytecode out of the block, behind the
records and the table; a decoder drains the block into memory.  Both come to the
same: the engine ends up as if it had the decoded properties and had loaded the
decoded bytecode from memory, and where it refuses the bytecode, both counts are
those of the bytecode alone.
-/

namespace ScriptBundle.ArtifactReader

/-- A load of an image that decodes is a direct load of the decoded bytecode by an
engine with the decoded properties, for every engine that refuses no property. -/
theorem load_eq_directLoad (reader : ArtifactReader) (image : Bytes) (engine : Engine)
    (decoded : DecodedArtifact) (hwritable : engine.properties.Writable)
    (hdecode : reader.decode image engine.properties.size = .ok decoded) :
    engine.properties.apply decoded.properties =
        (.ok (), (engine.withValues decoded.properties).properties) ∧
      (∀ debug loaded,
        ((engine.withValues decoded.properties).loadFrom decoded.bytecode).1 =
            (.ok debug, loaded) →
          reader.load image engine =
            (.ok
              { sectionOffset := decoded.sectionOffset
                resources := decoded.resources
                plugins := decoded.plugins
                debug }, loaded)) ∧
      (∀ rejection loaded,
        ((engine.withValues decoded.properties).loadFrom decoded.bytecode).1 =
            (.error rejection, loaded) →
          reader.load image engine =
            (.error (.bytecodeRejected rejection.offset rejection.offset rejection.reason),
              loaded)) := by
  obtain ⟨content, opened, hsection, hopen, hresources, hplugins, hproperties, hbytecode⟩ :=
    exists_of_decode_eq_ok hdecode
  have hsize : engine.properties.size = opened.properties.size :=
    (size_of_openBlock_eq_ok hopen).symm
  have hload := load_eq hsection hopen hwritable hsize
  rw [loadBytecode_eq, ← hbytecode, ← hproperties] at hload
  rw [← hproperties] at hsize
  refine ⟨PropertyStore.apply_eq_ok hwritable hsize, ?_, ?_⟩
  · intro debug loaded hdirect
    rw [hload, hdirect, hresources, hplugins]
    rfl
  · intro rejection loaded hdirect
    rw [hload, hdirect]
    rfl

/-- A block with a plugin record in front of two properties and of a program that
is cut after its third byte. -/
def cutBlock : Bytes :=
  Compression.compress 0
    (Records.encode [[7, 7, 7, 7]] ++ (PropertyTable.zeroed 2).encode ++ [5, 0x7B, 0x22])

def cutImage : Bytes :=
  Records.encode [] ++ DataSection.encodeLength cutBlock.length ++ cutBlock ++
    littleEndian 8 0

/-- The offset of a program that is refused leaves out the record and the table in
front of it. -/
theorem load_eq_directLoad_cutImage :
    ∃ decoded loaded,
      (ArtifactReader.mk ⟨"game"⟩ .linux .transparent).decode cutImage 2 = .ok decoded ∧
        decoded.plugins = [[7, 7, 7, 7]] ∧
        (ArtifactReader.mk ⟨"game"⟩ .linux .transparent).load cutImage
            { properties := .fresh 2 } =
          (.error (.bytecodeRejected 3 3 .endOfBytecode), loaded) := by
  have hdecode : (ArtifactReader.mk ⟨"game"⟩ .linux .transparent).decode cutImage 2 = .ok
      { sectionOffset := 0
        blockLength := cutBlock.length
        resources := []
        plugins := [[7, 7, 7, 7]]
        properties := .zeroed 2
        bytecode := [5, 0x7B, 0x22] } := by decide +kernel
  have hdirect : ((({ properties := .fresh 2 } : Engine).withValues (.zeroed 2)).loadFrom
      ([5, 0x7B, 0x22] : Bytes)).1.1 = .error ⟨3, .endOfBytecode⟩ := by decide +kernel
  obtain ⟨-, -, hrefused⟩ := load_eq_directLoad (ArtifactReader.mk ⟨"game"⟩ .linux .transparent)
    cutImage { properties := .fresh 2 } _
    (PropertyStore.writable_of_readOnly_eq_none rfl) hdecode
  exact ⟨_, _, hdecode, rfl, hrefused _ _ (Prod.ext hdirect rfl)⟩

end ScriptBundle.ArtifactReader
