/-!
# UTF-8

Text as bytes and back. The decoder goes through the bytes one at a time and stops at the first
one that rules the text out; a fault is put down to the character that has begun, not to the byte
that breaks it off. `decode_encode` says that every text survives the round trip.
-/

namespace ChainTypings.Text.Utf8

/-- The bytes of a text. -/
def encode (cs : List Char) : List UInt8 := cs.flatMap String.utf8EncodeChar

/-- What is wrong with bytes that are no text. -/
inductive Reason where
  | invalidStart
  | invalidContinuation
  | unexpectedEnd
  deriving DecidableEq, Repr

/-- The wording of a reason. -/
def Reason.message : Reason → String
  | invalidStart => "invalid start byte"
  | invalidContinuation => "invalid continuation byte"
  | unexpectedEnd => "unexpected end of data"

/-- The bytes of a character that is not finished, where they start, and why they have no end. -/
structure Fault where
  position : Nat
  bytes : List UInt8
  reason : Reason
  deriving DecidableEq, Repr

/-- The two hexadecimal digits of a byte. -/
def hexByte (b : UInt8) : String :=
  String.ofList [Nat.digitChar (b.toNat / 16), Nat.digitChar (b.toNat % 16)]

/-- The wording of a fault. -/
def Fault.message (f : Fault) : String :=
  let place :=
    match f.bytes with
    | [b] => "byte 0x" ++ hexByte b ++ " in position " ++ toString f.position
    | bytes =>
      "bytes in position " ++ toString f.position ++ "-" ++
        toString (f.position + bytes.length - 1)
  "'utf-8' codec can't decode " ++ place ++ ": " ++ f.reason.message

/-! ## The decoder -/

/-- A character that has begun: the number that its bytes make so far, how many bytes are owed
after the next one, and between which values the next one must lie. -/
structure Begun where
  bytes : List UInt8
  number : Nat
  owed : Nat
  low : Nat
  high : Nat

/-- What a first byte begins. The narrower ranges keep out numbers that have a shorter form, the
surrogates, and numbers past the last character. -/
def begin? (b : UInt8) : Option Begun :=
  let n := b.toNat
  if n < 0xC2 then none
  else if n < 0xE0 then some ⟨[b], n - 0xC0, 0, 0x80, 0xBF⟩
  else if n < 0xF0 then
    some ⟨[b], n - 0xE0, 1, if n = 0xE0 then 0xA0 else 0x80, if n = 0xED then 0x9F else 0xBF⟩
  else if n < 0xF5 then
    some ⟨[b], n - 0xF0, 2, if n = 0xF0 then 0x90 else 0x80, if n = 0xF4 then 0x8F else 0xBF⟩
  else none

/-- How far the decoder has come: the finished characters, the last one first, the position after
them, and the character that has begun, if one has. -/
structure Progress where
  done : List Char := []
  position : Nat := 0
  begun : Option Begun := none

/-- Takes one byte. -/
def step (p : Progress) (b : UInt8) : Except Fault Progress :=
  match p.begun with
  | none =>
    if b.toNat < 0x80 then .ok ⟨Char.ofNat b.toNat :: p.done, p.position + 1, none⟩
    else
      match begin? b with
      | some c => .ok ⟨p.done, p.position, some c⟩
      | none => .error ⟨p.position, [b], .invalidStart⟩
  | some c =>
    if c.low ≤ b.toNat ∧ b.toNat ≤ c.high then
      let number := 64 * c.number + (b.toNat - 0x80)
      let bytes := c.bytes ++ [b]
      match c.owed with
      | 0 => .ok ⟨Char.ofNat number :: p.done, p.position + bytes.length, none⟩
      | owed + 1 => .ok ⟨p.done, p.position, some ⟨bytes, number, owed, 0x80, 0xBF⟩⟩
    else .error ⟨p.position, c.bytes, .invalidContinuation⟩

/-- The text of the finished characters; there must be no other. -/
def finish (p : Progress) : Except Fault (List Char) :=
  match p.begun with
  | none => .ok p.done.reverse
  | some c => .error ⟨p.position, c.bytes, .unexpectedEnd⟩

/-- The text that bytes stand for. -/
def decode (bytes : List UInt8) : Except Fault (List Char) :=
  match bytes.foldlM step {} with
  | .ok p => finish p
  | .error e => .error e

/-! ## The round trip -/

theorem toNat_ofNat_lt {n : Nat} (h : n < 256) : (UInt8.ofNat n).toNat = n := by
  simp [UInt8.toNat_ofNat', Nat.mod_eq_of_lt h]

theorem begin?_ofNat {n : Nat} (h : n < 256) :
    begin? (UInt8.ofNat n) =
      if n < 0xC2 then none
      else if n < 0xE0 then some ⟨[UInt8.ofNat n], n - 0xC0, 0, 0x80, 0xBF⟩
      else if n < 0xF0 then
        some ⟨[UInt8.ofNat n], n - 0xE0, 1, if n = 0xE0 then 0xA0 else 0x80,
          if n = 0xED then 0x9F else 0xBF⟩
      else if n < 0xF5 then
        some ⟨[UInt8.ofNat n], n - 0xF0, 2, if n = 0xF0 then 0x90 else 0x80,
          if n = 0xF4 then 0x8F else 0xBF⟩
      else none := by
  simp only [begin?, toNat_ofNat_lt h]

/-- The last byte that a character owes finishes it. -/
theorem step_last {n : Nat} (hn : n < 256) (done : List Char) (position : Nat) (bytes : List UInt8)
    (number low high : Nat) (hl : low ≤ n) (hh : n ≤ high) :
    step ⟨done, position, some ⟨bytes, number, 0, low, high⟩⟩ (UInt8.ofNat n) =
      .ok ⟨Char.ofNat (64 * number + (n - 0x80)) :: done, position + (bytes.length + 1), none⟩ := by
  simp [step, toNat_ofNat_lt hn, hl, hh]

/-- A byte that a character owes is added to it. -/
theorem step_next {n : Nat} (hn : n < 256) (done : List Char) (position : Nat) (bytes : List UInt8)
    (number owed low high : Nat) (hl : low ≤ n) (hh : n ≤ high) :
    step ⟨done, position, some ⟨bytes, number, owed + 1, low, high⟩⟩ (UInt8.ofNat n) =
      .ok ⟨done, position,
        some ⟨bytes ++ [UInt8.ofNat n], 64 * number + (n - 0x80), owed, 0x80, 0xBF⟩⟩ := by
  simp [step, toNat_ofNat_lt hn, hl, hh]

/-- A byte that begins a character of several bytes. -/
theorem step_begin {n : Nat} (hn : n < 256) (h : 0x80 ≤ n) (done : List Char) (position : Nat)
    {c : Begun} (hc : begin? (UInt8.ofNat n) = some c) :
    step ⟨done, position, none⟩ (UInt8.ofNat n) = .ok ⟨done, position, some c⟩ := by
  have : ¬ n < 0x80 := by omega
  simp [step, toNat_ofNat_lt hn, this, hc]

/-- The bytes of a character take the decoder past it. -/
theorem foldlM_step_char (c : Char) (done : List Char) (position : Nat) :
    (String.utf8EncodeChar c).foldlM step ⟨done, position, none⟩ =
      .ok ⟨c :: done, position + (String.utf8EncodeChar c).length, none⟩ := by
  have hv : c.val.toNat < 0xD800 ∨ 0xDFFF < c.val.toNat ∧ c.val.toNat < 0x110000 := c.valid
  have hc : Char.ofNat c.val.toNat = c := Char.ofNat_toNat c
  unfold String.utf8EncodeChar
  generalize c.val.toNat = v at hv hc ⊢
  subst hc
  dsimp only
  split
  · have h1 : v < 128 := by omega
    simp [step, toNat_ofNat_lt (show v < 256 by omega), h1, bind, Except.bind, pure, Except.pure]
  · split
    · have hb := begin?_ofNat (show v / 64 % 32 + 192 < 256 by omega)
      rw [if_neg (by omega), if_pos (by omega)] at hb
      simp only [List.foldlM_cons, List.foldlM_nil, bind, Except.bind, pure, Except.pure]
      rw [step_begin (by omega) (by omega) _ _ hb]
      dsimp only
      rw [step_last (by omega) _ _ _ _ _ _ (by omega) (by omega)]
      simp
      congr
      omega
    · split
      · have hb := begin?_ofNat (show v / 4096 % 16 + 224 < 256 by omega)
        rw [if_neg (by omega), if_neg (by omega), if_pos (by omega)] at hb
        simp only [List.foldlM_cons, List.foldlM_nil, bind, Except.bind, pure, Except.pure]
        rw [step_begin (by omega) (by omega) _ _ hb]
        dsimp only
        rw [step_next (by omega) _ _ _ _ _ _ _ (by split <;> omega) (by split <;> omega)]
        dsimp only
        rw [step_last (by omega) _ _ _ _ _ _ (by omega) (by omega)]
        simp
        congr
        omega
      · have hb := begin?_ofNat (show v / 262144 % 8 + 240 < 256 by omega)
        rw [if_neg (by omega), if_neg (by omega), if_neg (by omega), if_pos (by omega)] at hb
        simp only [List.foldlM_cons, List.foldlM_nil, bind, Except.bind, pure, Except.pure]
        rw [step_begin (by omega) (by omega) _ _ hb]
        dsimp only
        rw [step_next (by omega) _ _ _ _ _ _ _ (by split <;> omega) (by split <;> omega)]
        dsimp only
        rw [step_next (by omega) _ _ _ _ _ _ _ (by omega) (by omega)]
        dsimp only
        rw [step_last (by omega) _ _ _ _ _ _ (by omega) (by omega)]
        simp
        congr
        omega

theorem foldlM_step_encode (cs done : List Char) (position : Nat) :
    (encode cs).foldlM step ⟨done, position, none⟩ =
      .ok ⟨cs.reverse ++ done, position + (encode cs).length, none⟩ := by
  induction cs generalizing done position with
  | nil => rfl
  | cons c cs ih =>
    have h : encode (c :: cs) = String.utf8EncodeChar c ++ encode cs := rfl
    rw [h, List.foldlM_append, foldlM_step_char]
    show (encode cs).foldlM step _ = _
    rw [ih]
    simp [Nat.add_assoc]

theorem decode_encode (cs : List Char) : decode (encode cs) = .ok cs := by
  simp only [decode, foldlM_step_encode]
  simp [finish]

end ChainTypings.Text.Utf8
