import Mathlib.Algebra.Group.Nat.Defs
import PendantClient.Lib.Utf8

/-! What the client takes from Python: bytes, strings, the exceptions it raises or handles, and slices. -/

namespace PendantClient

/-- A `bytes` object. -/
abbrev Bytes := List UInt8

/-- The exceptions the modelled code raises itself or gets from the calls it makes. -/
inductive PyError
  | valueError (message : String)
  | keyError (key : Nat)
  | structError (message : String)
  | attributeError (message : String)
  | overflowError (message : String)
  | unicodeEncodeError
  | osError
  /-- `cryptography.exceptions.InvalidTag`. -/
  | invalidTag
  deriving Repr, DecidableEq

/-- `data[start:stop]`, clipped at the end of the data as Python clips it. -/
def slice (data : Bytes) (start stop : Nat) : Bytes := (data.drop start).take (stop - start)

/-- `sys.maxsize`: the largest length of a Python sequence. -/
def maxsize : Nat := 2 ^ 63 - 1

/-- A Python sequence: its items, no more than `sys.maxsize` of them. -/
structure PySeq (α : Type) where
  items : List α
  bounded : items.length ≤ maxsize

/-- `range(0, stop, step)` for a positive step. -/
def rangeStep (stop step : Nat) : List Nat := (List.range ((stop + step - 1) / step)).map (· * step)

/-- A Python string: code points, surrogates included. -/
abbrev PyStr := List (Fin 0x110000)

/-- `s.encode("utf-8")`: a surrogate has no encoding. -/
def PyStr.encode : PyStr → Except PyError Bytes
  | [] => .ok []
  | c :: rest => do
    if h : c.val.isValidChar then
      let bytes ← PyStr.encode rest
      .ok (String.utf8EncodeChar (Char.ofNatAux c.val h) ++ bytes)
    else .error .unicodeEncodeError

/-- The string of some characters. -/
def PyStr.ofChars (cs : List Char) : PyStr := cs.map fun c => ⟨c.toNat, by
  have := c.valid
  simp only [UInt32.isValidChar, Nat.isValidChar] at this
  show c.val.toNat < 0x110000
  omega⟩

/-- `b.decode("utf-8", errors="replace")`. -/
def decodeUtf8Replace (bytes : Bytes) : PyStr := PyStr.ofChars (Utf8.decodeReplace bytes)

theorem bind_eq_ok {ε α β : Type} {x : Except ε α} {f : α → Except ε β} {b : β} :
    (x >>= f) = .ok b ↔ ∃ a, x = .ok a ∧ f a = .ok b := by
  cases x with
  | error e => simp [bind, Except.bind]
  | ok a => simp [bind, Except.bind]

theorem toOption_eq_some {ε α : Type} {x : Except ε α} {a : α} : x.toOption = some a ↔ x = .ok a := by
  cases x <;> simp [Except.toOption]

theorem ok_bind {ε α β : Type} (a : α) (f : α → Except ε β) : (Except.ok a >>= f) = f a := rfl

theorem error_bind {ε α β : Type} (e : ε) (f : α → Except ε β) : (Except.error e >>= f) = .error e := rfl

/-! ### Strings -/

section
variable {c : Fin 0x110000} {s : PyStr}

theorem PyStr.encode_cons (h : c.val.isValidChar) :
    PyStr.encode (c :: s) =
      s.encode >>= fun bytes => .ok (String.utf8EncodeChar (Char.ofNatAux c.val h) ++ bytes) := dif_pos h

theorem PyStr.encode_surrogate (h : ¬c.val.isValidChar) : PyStr.encode (c :: s) = .error .unicodeEncodeError := dif_neg h

end

/-- An encoded string is the encoding of characters that make up the string. -/
theorem PyStr.encode_eq_ok {s : PyStr} : ∀ {bytes : Bytes}, s.encode = .ok bytes →
    ∃ cs, bytes = Utf8.encode cs ∧ PyStr.ofChars cs = s := by
  induction s with
  | nil =>
    intro bytes h
    cases h
    exact ⟨[], rfl, rfl⟩
  | cons c s ih =>
    intro bytes h
    by_cases hc : c.val.isValidChar
    · rw [PyStr.encode_cons hc] at h
      obtain ⟨rest, hrest, h⟩ := bind_eq_ok.mp h
      cases h
      obtain ⟨cs, rfl, rfl⟩ := ih hrest
      exact ⟨Char.ofNatAux c.val hc :: cs, rfl, congrArg₂ List.cons (Fin.ext rfl) rfl⟩
    · rw [PyStr.encode_surrogate hc] at h
      cases h

/-- Decoding gives an encoded string back. -/
theorem decodeUtf8Replace_encode {s : PyStr} {bytes : Bytes} (h : s.encode = .ok bytes) : decodeUtf8Replace bytes = s := by
  obtain ⟨cs, rfl, rfl⟩ := PyStr.encode_eq_ok h
  rw [decodeUtf8Replace, Utf8.decodeReplace_encode]

/-! ### Slices at a position -/

section
variable {data a rest : Bytes} {pos : Nat}

theorem drop_of_drop_append (h : data.drop pos = a ++ rest) : data.drop (pos + a.length) = rest := by
  rw [← List.drop_drop, h, List.drop_left]

theorem lt_length_of_drop (h : data.drop pos = a) (ha : a ≠ []) : pos < data.length := by
  rcases Nat.lt_or_ge pos data.length with hlt | hge
  · exact hlt
  · rw [List.drop_of_length_le hge] at h
    exact absurd h.symm ha

theorem slice_add (n : Nat) : slice data pos (pos + n) = (data.drop pos).take n := by
  rw [slice, Nat.add_sub_cancel_left]

end

end PendantClient
