import PendantClient.Lib.LittleEndian

/-! Records one after another, each with its length in front as a little-endian number of `k` bytes. -/

namespace Records

/-- A record: the length of its body in `k` bytes, and the body. -/
def encode (k : Nat) (body : List UInt8) : List UInt8 := LittleEndian.bytes k body.length ++ body

/-- The data are these records and nothing else. -/
structure Splits (k : Nat) (data : List UInt8) (bodies : List (List UInt8)) : Prop where
  fits : ∀ body ∈ bodies, body.length < 256 ^ k
  data : data = bodies.flatMap (encode k)

variable {k : Nat} {data body rest rest' : List UInt8} {bodies bodies' : List (List UInt8)}

theorem Splits.nil (k : Nat) : Splits k [] [] := ⟨fun _ h => absurd h List.not_mem_nil, rfl⟩

theorem Splits.snoc (h : Splits k data bodies) (hbody : body.length < 256 ^ k) :
    Splits k (data ++ LittleEndian.bytes k body.length ++ body) (bodies ++ [body]) where
  fits := by
    intro b hb
    rcases List.mem_append.mp hb with hb | hb
    · exact h.fits b hb
    · exact List.mem_singleton.mp hb ▸ hbody
  data := by rw [List.flatMap_append, List.flatMap_singleton, ← h.data, encode, List.append_assoc]

/-- The length in front tells where a record ends. -/
theorem encode_append_inj {body' : List UInt8} (hbody : body.length < 256 ^ k) (hbody' : body'.length < 256 ^ k)
    (h : encode k body ++ rest = encode k body' ++ rest') : body = body' ∧ rest = rest' := by
  rw [encode, encode, List.append_assoc, List.append_assoc] at h
  obtain ⟨hlength, h⟩ := List.append_inj h (by rw [LittleEndian.length_bytes, LittleEndian.length_bytes])
  have hvalue := congrArg LittleEndian.value hlength
  rw [LittleEndian.value_bytes hbody, LittleEndian.value_bytes hbody'] at hvalue
  exact List.append_inj h hvalue

theorem encode_ne_nil (hk : 0 < k) (body : List UInt8) : encode k body ≠ [] := by
  intro h
  have hlength := congrArg List.length h
  rw [encode, List.length_append, LittleEndian.length_bytes, List.length_nil] at hlength
  omega

/-- Data split into records in one way at most. -/
theorem Splits.unique (hk : 0 < k) : ∀ {data : List UInt8} {bodies bodies' : List (List UInt8)}, Splits k data bodies →
    Splits k data bodies' → bodies = bodies' := by
  intro data bodies
  induction bodies generalizing data with
  | nil =>
    intro bodies' h h'
    cases bodies' with
    | nil => rfl
    | cons body bodies' =>
      have heq := h.data.symm.trans h'.data
      rw [List.flatMap_cons] at heq
      exact absurd (List.append_eq_nil_iff.mp heq.symm).1 (encode_ne_nil hk body)
  | cons body bodies ih =>
    intro bodies' h h'
    cases bodies' with
    | nil =>
      have heq := h.data.symm.trans h'.data
      rw [List.flatMap_cons] at heq
      exact absurd (List.append_eq_nil_iff.mp heq).1 (encode_ne_nil hk body)
    | cons body' bodies' =>
      have heq := h.data.symm.trans h'.data
      rw [List.flatMap_cons, List.flatMap_cons] at heq
      obtain ⟨rfl, hrest⟩ := encode_append_inj (h.fits body List.mem_cons_self) (h'.fits body' List.mem_cons_self) heq
      have hsame : bodies = bodies' := ih ⟨fun b hb => h.fits b (List.mem_cons_of_mem body hb), rfl⟩
        ⟨fun b hb => h'.fits b (List.mem_cons_of_mem body hb), hrest⟩
      rw [hsame]

end Records
