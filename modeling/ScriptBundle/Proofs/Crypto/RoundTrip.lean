import ScriptBundle.Proofs.Artifact.Block

/-!
# Authenticated encryption is undone

The key stream is added once by encryption and once more by decryption, which
cancels it, and the tag is computed from the ciphertext on both sides.  The nonce
travels in front of the ciphertext, so a reader needs none of its own.
-/

namespace ScriptBundle

namespace Gcm

/-- The encryptions of `blocks` counters from `index` on. -/
def keyStream (keys : List Aes.Block) (nonce : Bytes) : (blocks index : Nat) → Bytes
  | 0, _ => []
  | blocks + 1, index =>
      (Aes.encryptBlock keys (counterBlock nonce index)).toList ++
        keyStream keys nonce blocks (index + 1)

theorem keyStream_length (keys : List Aes.Block) (nonce : Bytes) (blocks index : Nat) :
    (keyStream keys nonce blocks index).length = 16 * blocks := by
  induction blocks generalizing index with
  | zero => rfl
  | succ blocks ih =>
      rw [keyStream, List.length_append, ih, Vector.length_toList]
      omega

theorem zipWith_xor_zipWith_xor (data stream : Bytes) (hlength : data.length ≤ stream.length) :
    List.zipWith (· ^^^ ·) (List.zipWith (· ^^^ ·) data stream) stream = data := by
  induction data generalizing stream with
  | nil => rfl
  | cons byte data ih =>
      cases stream with
      | nil => simp at hlength
      | cons key stream =>
          rw [List.zipWith_cons_cons, List.zipWith_cons_cons,
            ih stream (Nat.le_of_succ_le_succ hlength), UInt8.xor_assoc, UInt8.xor_self,
            UInt8.xor_zero]

/-- Adding a stream to data of which it covers only the front, and the rest of the
stream to the rest of the data. -/
theorem zipWith_xor_append (data front back : Bytes) :
    List.zipWith (· ^^^ ·) (data.take front.length) front ++
        List.zipWith (· ^^^ ·) (data.drop front.length) back =
      List.zipWith (· ^^^ ·) data (front ++ back) := by
  induction front generalizing data with
  | nil => simp
  | cons key front ih =>
      cases data with
      | nil => simp
      | cons byte data => simpa using ih data

theorem addKeyStream_eq (keys : List Aes.Block) (nonce : Bytes) (blocks index : Nat)
    (data : Bytes) (done : List Bytes) :
    addKeyStream keys nonce blocks index data done =
      done.reverse.flatten ++
        List.zipWith (· ^^^ ·) data (keyStream keys nonce blocks index) := by
  induction blocks generalizing index data done with
  | zero => simp [addKeyStream, keyStream]
  | succ blocks ih =>
      have hlength : (Aes.encryptBlock keys (counterBlock nonce index)).toList.length = 16 :=
        Vector.length_toList
      have happend := zipWith_xor_append data
        (Aes.encryptBlock keys (counterBlock nonce index)).toList
        (keyStream keys nonce blocks (index + 1))
      rw [hlength] at happend
      rw [addKeyStream, ih, keyStream, ← happend]
      simp only [List.reverse_cons, List.flatten_append, List.flatten_cons, List.flatten_nil,
        List.append_nil, List.append_assoc]

theorem transform_eq (keys : List Aes.Block) (nonce data : Bytes) :
    transform keys nonce data =
      List.zipWith (· ^^^ ·) data (keyStream keys nonce ((data.length + 15) / 16) 2) :=
  addKeyStream_eq keys nonce _ 2 data []

theorem length_le_keyStream (keys : List Aes.Block) (nonce data : Bytes) :
    data.length ≤ (keyStream keys nonce ((data.length + 15) / 16) 2).length := by
  rw [keyStream_length]
  omega

theorem transform_length (keys : List Aes.Block) (nonce data : Bytes) :
    (transform keys nonce data).length = data.length := by
  rw [transform_eq, List.length_zipWith]
  exact Nat.min_eq_left (length_le_keyStream keys nonce data)

theorem transform_transform (keys : List Aes.Block) (nonce data : Bytes) :
    transform keys nonce (transform keys nonce data) = data := by
  rw [transform_eq keys nonce (transform keys nonce data), transform_length, transform_eq]
  exact zipWith_xor_zipWith_xor _ _ (length_le_keyStream keys nonce data)

theorem tag_length (keys : List Aes.Block) (nonce ciphertext : Bytes) :
    (tag keys nonce ciphertext).length = tagLength := by
  rw [tag, List.length_zipWith, Element.toBytes, List.length_append, List.length_reverse,
    List.length_reverse, littleEndian_length, littleEndian_length, Vector.length_toList]
  rfl

theorem encrypt_length (key nonce data : Bytes) :
    (encrypt key nonce data).length = data.length + tagLength := by
  rw [encrypt, List.length_append, transform_length, tag_length]

theorem decrypt?_encrypt (key nonce data : Bytes) :
    decrypt? key nonce (encrypt key nonce data) = some data := by
  unfold decrypt? encrypt
  extract_lets keys ciphertext taken found
  have hlength : (ciphertext ++ tag keys nonce ciphertext).length - tagLength =
      ciphertext.length := by
    rw [List.length_append, tag_length, Nat.add_sub_cancel]
  have htaken : taken = ciphertext := by
    unfold taken
    rw [hlength, List.take_left]
  have hfound : found = tag keys nonce ciphertext := by
    unfold found
    rw [hlength, List.drop_left]
  rw [htaken, hfound, if_pos rfl, transform_transform]

end Gcm

namespace Cipher

theorem nonce_length (nonce : Bytes) :
    ((nonce ++ List.replicate nonceLength 0).take nonceLength).length = nonceLength := by
  rw [List.length_take, List.length_append, List.length_replicate]
  exact Nat.min_eq_left (Nat.le_add_left _ _)

/-- A block is longer than the data by a nonce and a tag. -/
theorem authenticated_length (key nonce : Bytes) {data block : Bytes}
    (hencrypt : (authenticated key nonce).encrypt data = .ok block) :
    block.length = nonceLength + data.length + Gcm.tagLength := by
  obtain rfl := Except.ok.inj hencrypt
  rw [List.length_append, nonce_length, Gcm.encrypt_length, Nat.add_assoc]

/-- A reader's own nonce does not matter. -/
theorem authenticated_decrypt (key nonce nonce' : Bytes) (data : Bytes) :
    ∃ block, (authenticated key nonce).encrypt data = .ok block ∧
      (authenticated key nonce').decrypt block = .ok data := by
  refine ⟨_, rfl, ?_⟩
  have hlength := nonce_length nonce
  generalize (nonce ++ List.replicate nonceLength 0).take nonceLength = used at hlength
  simp only [authenticated]
  rw [if_neg (by rw [List.length_append]; omega), ← hlength, List.take_left, List.drop_left,
    Gcm.decrypt?_encrypt]

theorem authenticated_lossless (key nonce : Bytes) : (authenticated key nonce).Lossless :=
  fun data => authenticated_decrypt key nonce nonce data

end Cipher

end ScriptBundle
