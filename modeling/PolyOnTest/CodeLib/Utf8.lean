import Mathlib.Data.List.Basic
import Mathlib.Tactic.Ring

/-!
# UTF-8 strings

A string is a list of Unicode scalar values.  `encode` gives its bytes, and
`items` reads bytes back: one item for each scalar value, and `none` for each
maximal run of bytes that starts a sequence and does not finish it.  The reader
is a machine over single bytes, so it has an answer for every byte list, cut
anywhere.

`lossy` replaces each bad run by `U+FFFD`, and `fromUtf8` fails on the first one
and says where it stands.

The results are the inversion (`lossy_encode`, `fromUtf8_encode`), and the facts
about ASCII bytes that a line protocol needs: an ASCII byte is a character of
its own whatever stands around it (`lossy_append_ascii`), it comes from no
other byte (`mem_lossy_ascii`), and an ASCII byte list is its own text
(`lossy_ascii`).
-/

namespace CodeLib.Utf8

/-- The bytes of a string. -/
def encode (s : List Char) : List UInt8 := s.flatMap String.utf8EncodeChar

/-- Where the reader stands.  In `tail more code lo hi` a sequence is open: its
next byte is `0x80 + p` with `p` in `[lo, hi]`, `more` further bytes come after
it, and `code` is the value of the bits read so far. -/
inductive State
  | start
  | tail (more code lo hi : Nat)
  deriving DecidableEq, Repr

/-- A byte read between two sequences. -/
def lead (b : UInt8) : List (Option Char) × State :=
  let n := b.toNat
  if n < 0x80 then ([some (Char.ofNat n)], .start)
  else if n < 0xC2 then ([none], .start)
  else if n < 0xE0 then ([], .tail 0 (n - 0xC0) 0 0x3F)
  else if n = 0xE0 then ([], .tail 1 0 0x20 0x3F)
  else if n = 0xED then ([], .tail 1 0xD 0 0x1F)
  else if n < 0xF0 then ([], .tail 1 (n - 0xE0) 0 0x3F)
  else if n = 0xF0 then ([], .tail 2 0 0x10 0x3F)
  else if n < 0xF4 then ([], .tail 2 (n - 0xF0) 0 0x3F)
  else if n = 0xF4 then ([], .tail 2 4 0 0x0F)
  else ([none], .start)

/-- One byte.  A byte that the open sequence cannot take ends that sequence as
a bad run, and is read again as a leading byte. -/
def step : State → UInt8 → List (Option Char) × State
  | .start, b => lead b
  | .tail more code lo hi, b =>
      if 0x80 + lo ≤ b.toNat ∧ b.toNat ≤ 0x80 + hi then
        match more with
        | 0 => ([some (Char.ofNat (code * 64 + (b.toNat - 0x80)))], .start)
        | more + 1 => ([], .tail more (code * 64 + (b.toNat - 0x80)) 0 0x3F)
      else (none :: (lead b).1, (lead b).2)

/-- The end of the input in a state. -/
def flush : State → List (Option Char)
  | .start => []
  | .tail .. => [none]

/-- The items of a byte list, read from a state. -/
def itemsFrom : State → List UInt8 → List (Option Char)
  | s, [] => flush s
  | s, b :: bs => (step s b).1 ++ itemsFrom (step s b).2 bs

/-- The items of a byte list. -/
def items (bs : List UInt8) : List (Option Char) := itemsFrom .start bs

/-- The text of a byte list, with `U+FFFD` in place of each bad run. -/
def lossy (bs : List UInt8) : List Char :=
  (items bs).map fun c => c.getD (Char.ofNat 0xFFFD)

/-- Where the first bad run starts, and how many bytes it has; the length is left
out when the run is open at the end of the input.  `pos` is the index of the next
byte, and `first` the index of the byte that opened the sequence of the state. -/
def errorFrom : State → (first pos : Nat) → List UInt8 → Option (Nat × Option Nat)
  | .start, _, _, [] => none
  | .tail .., first, _, [] => some (first, none)
  | .start, _, pos, b :: bs =>
      if none ∈ (lead b).1 then some (pos, some 1)
      else errorFrom (lead b).2 pos (pos + 1) bs
  | .tail more code lo hi, first, pos, b :: bs =>
      if none ∈ (step (.tail more code lo hi) b).1 then some (first, some (pos - first))
      else errorFrom (step (.tail more code lo hi) b).2 first (pos + 1) bs

/-- The text of a byte list without bad runs, or where its first bad run is. -/
def fromUtf8 (bs : List UInt8) : Except (Nat × Option Nat) (List Char) :=
  match errorFrom .start 0 0 bs with
  | some e => .error e
  | none => .ok (lossy bs)

/-- The character of an ASCII byte. -/
def asciiChar (b : UInt8) : Char := Char.ofNat b.toNat

/-- Every byte is below `0x80`. -/
def IsAscii (bs : List UInt8) : Prop := ∀ b ∈ bs, b.toNat < 0x80

instance (bs : List UInt8) : Decidable (IsAscii bs) :=
  List.decidableBAll _ bs

@[simp] theorem encode_nil : encode [] = [] := rfl

@[simp] theorem encode_cons (c : Char) (s : List Char) :
    encode (c :: s) = String.utf8EncodeChar c ++ encode s := rfl

theorem encode_append (s t : List Char) :
    encode (s ++ t) = encode s ++ encode t := List.flatMap_append

/-! ## Inversion -/

theorem char_toNat_valid (c : Char) :
    c.toNat < 0xD800 ∨ 0xDFFF < c.toNat ∧ c.toNat < 0x110000 := by
  rcases c.valid with h | ⟨h1, h2⟩
  · exact Or.inl h
  · exact Or.inr ⟨h1, h2⟩

/-- A leading byte below `0x80`. -/
theorem lead_ascii {b : UInt8} (h : b.toNat < 0x80) :
    lead b = ([some (asciiChar b)], .start) := by
  simp [lead, asciiChar, h]

theorem step_tail_mem {more code lo hi : Nat} {b : UInt8}
    (h : 0x80 + lo ≤ b.toNat ∧ b.toNat ≤ 0x80 + hi) :
    step (.tail (more + 1) code lo hi) b =
      ([], .tail more (code * 64 + (b.toNat - 0x80)) 0 0x3F) := by
  rw [step, if_pos h]

theorem step_tail_last {code lo hi : Nat} {b : UInt8}
    (h : 0x80 + lo ≤ b.toNat ∧ b.toNat ≤ 0x80 + hi) :
    step (.tail 0 code lo hi) b =
      ([some (Char.ofNat (code * 64 + (b.toNat - 0x80)))], .start) := by
  rw [step, if_pos h]

/-- A sequence of several bytes has no ASCII byte. -/
theorem mem_encodeChar_ascii {c : Char} {b : UInt8}
    (h : b ∈ String.utf8EncodeChar c) (hb : b.toNat < 0x80) :
    asciiChar b = c := by
  have hc : Char.ofNat c.toNat = c := Char.ofNat_toNat c
  change Char.ofNat c.val.toNat = c at hc
  simp only [String.utf8EncodeChar] at h
  generalize c.val.toNat = v at h hc
  split_ifs at h with h1 h2 h3
  · rw [List.mem_singleton] at h
    rw [h, UInt8.toNat_ofNat'] at hb
    rw [asciiChar, h, UInt8.toNat_ofNat', Nat.mod_eq_of_lt (by omega), hc]
  all_goals
    simp only [List.mem_cons, List.not_mem_nil, or_false] at h
    exfalso
  · rcases h with h | h <;> rw [h, UInt8.toNat_ofNat'] at hb <;> omega
  · rcases h with h | h | h <;> rw [h, UInt8.toNat_ofNat'] at hb <;> omega
  · rcases h with h | h | h | h <;> rw [h, UInt8.toNat_ofNat'] at hb <;> omega

/-- The ASCII bytes of an encoding are the ASCII characters of the text. -/
theorem mem_encode_ascii {s : List Char} {b : UInt8} (h : b ∈ encode s)
    (hb : b.toNat < 0x80) : asciiChar b ∈ s := by
  obtain ⟨c, hc, hmem⟩ := List.mem_flatMap.mp h
  rw [mem_encodeChar_ascii hmem hb]
  exact hc

theorem zero_not_mem_encode {s : List Char} (h : '\x00' ∉ s) : 0 ∉ encode s :=
  fun hmem => h (mem_encode_ascii hmem (by decide))

/-- A byte of a sequence behind the first one. -/
theorem toNat_tailByte (v : Nat) : (UInt8.ofNat (v % 64 + 128)).toNat = v % 64 + 128 := by
  rw [UInt8.toNat_ofNat']
  omega

/-- The first byte of three narrows the second one. -/
theorem lead_three {v : Nat} (hlo : 0x7FF < v) (hhi : v ≤ 0xFFFF)
    (hv : v < 0xD800 ∨ 0xDFFF < v) :
    ∃ lo hi, lead (UInt8.ofNat (v / 4096 % 16 + 224)) = ([], .tail 1 (v / 4096) lo hi) ∧
      lo ≤ v / 64 % 64 ∧ v / 64 % 64 ≤ hi := by
  have hb : (UInt8.ofNat (v / 4096 % 16 + 224)).toNat = v / 4096 + 224 := by
    rw [UInt8.toNat_ofNat']
    omega
  simp only [lead, hb]
  rw [if_neg (by omega), if_neg (by omega), if_neg (by omega)]
  split_ifs with he0 hed
  · exact ⟨_, _, by rw [show v / 4096 = 0 by omega], by omega, by omega⟩
  · exact ⟨_, _, by rw [show v / 4096 = 0xD by omega], by omega, by omega⟩
  · exact ⟨_, _, by rw [Nat.add_sub_cancel], by omega, by omega⟩
  all_goals omega

/-- The first byte of four narrows the second one. -/
theorem lead_four {v : Nat} (hlo : 0xFFFF < v) (hhi : v < 0x110000) :
    ∃ lo hi, lead (UInt8.ofNat (v / 262144 % 8 + 240)) =
      ([], .tail 2 (v / 262144) lo hi) ∧ lo ≤ v / 4096 % 64 ∧ v / 4096 % 64 ≤ hi := by
  have hb : (UInt8.ofNat (v / 262144 % 8 + 240)).toNat = v / 262144 + 240 := by
    rw [UInt8.toNat_ofNat']
    omega
  simp only [lead, hb]
  rw [if_neg (by omega), if_neg (by omega), if_neg (by omega), if_neg (by omega),
    if_neg (by omega), if_neg (by omega)]
  split_ifs with hf0 hf4 hf4'
  · exact ⟨_, _, by rw [show v / 262144 = 0 by omega], by omega, by omega⟩
  · exact ⟨_, _, by rw [Nat.add_sub_cancel], by omega, by omega⟩
  · exact ⟨_, _, by rw [show v / 262144 = 4 by omega], by omega, by omega⟩
  all_goals omega

/-- A sequence of two bytes. -/
theorem itemsFrom_two {v : Nat} (hlo : 0x7F < v) (hhi : v ≤ 0x7FF) (bs : List UInt8) :
    itemsFrom .start
        (UInt8.ofNat (v / 64 % 32 + 192) :: UInt8.ofNat (v % 64 + 128) :: bs) =
      some (Char.ofNat v) :: itemsFrom .start bs := by
  have hb : (UInt8.ofNat (v / 64 % 32 + 192)).toNat = v / 64 + 192 := by
    rw [UInt8.toNat_ofNat']
    omega
  have hlead : step .start (UInt8.ofNat (v / 64 % 32 + 192)) =
      ([], .tail 0 (v / 64) 0 0x3F) := by
    simp only [step, lead, hb]
    rw [if_neg (by omega), if_neg (by omega), if_pos (by omega), Nat.add_sub_cancel]
  have hb1 := toNat_tailByte v
  have hvalue : v / 64 * 64 + (v % 64 + 128 - 128) = v := by omega
  simp only [itemsFrom]
  rw [hlead]
  dsimp only
  rw [step_tail_last (by omega), hb1, hvalue]
  simp

/-- A sequence of three bytes. -/
theorem itemsFrom_three {v : Nat} (hlo : 0x7FF < v) (hhi : v ≤ 0xFFFF)
    (hv : v < 0xD800 ∨ 0xDFFF < v) (bs : List UInt8) :
    itemsFrom .start (UInt8.ofNat (v / 4096 % 16 + 224) ::
        UInt8.ofNat (v / 64 % 64 + 128) :: UInt8.ofNat (v % 64 + 128) :: bs) =
      some (Char.ofNat v) :: itemsFrom .start bs := by
  obtain ⟨lo, hi, hlead, hlow, hhigh⟩ := lead_three hlo hhi hv
  have hstep : step .start (UInt8.ofNat (v / 4096 % 16 + 224)) = _ := hlead
  have hb1 := toNat_tailByte (v / 64)
  have hb2 := toNat_tailByte v
  have hvalue : (v / 4096 * 64 + (v / 64 % 64 + 128 - 128)) * 64 +
      (v % 64 + 128 - 128) = v := by omega
  simp only [itemsFrom]
  rw [hstep]
  dsimp only
  rw [step_tail_mem (by omega)]
  dsimp only
  rw [step_tail_last (by omega), hb1, hb2, hvalue]
  simp

/-- A sequence of four bytes. -/
theorem itemsFrom_four {v : Nat} (hlo : 0xFFFF < v) (hhi : v < 0x110000)
    (bs : List UInt8) :
    itemsFrom .start (UInt8.ofNat (v / 262144 % 8 + 240) ::
        UInt8.ofNat (v / 4096 % 64 + 128) :: UInt8.ofNat (v / 64 % 64 + 128) ::
          UInt8.ofNat (v % 64 + 128) :: bs) =
      some (Char.ofNat v) :: itemsFrom .start bs := by
  obtain ⟨lo, hi, hlead, hlow, hhigh⟩ := lead_four hlo hhi
  have hstep : step .start (UInt8.ofNat (v / 262144 % 8 + 240)) = _ := hlead
  have hb1 := toNat_tailByte (v / 4096)
  have hb2 := toNat_tailByte (v / 64)
  have hb3 := toNat_tailByte v
  have hvalue : ((v / 262144 * 64 + (v / 4096 % 64 + 128 - 128)) * 64 +
      (v / 64 % 64 + 128 - 128)) * 64 + (v % 64 + 128 - 128) = v := by omega
  simp only [itemsFrom]
  rw [hstep]
  dsimp only
  rw [step_tail_mem (by omega)]
  dsimp only
  rw [step_tail_mem (by omega)]
  dsimp only
  rw [step_tail_last (by omega), hb1, hb2, hb3, hvalue]
  simp

/-- The reader takes back one encoded character. -/
theorem itemsFrom_encodeChar (c : Char) (bs : List UInt8) :
    itemsFrom .start (String.utf8EncodeChar c ++ bs) =
      some c :: itemsFrom .start bs := by
  have hv := char_toNat_valid c
  have hc : Char.ofNat c.toNat = c := Char.ofNat_toNat c
  change c.val.toNat < _ ∨ _ < c.val.toNat ∧ c.val.toNat < _ at hv
  change Char.ofNat c.val.toNat = c at hc
  simp only [String.utf8EncodeChar]
  generalize c.val.toNat = v at hv hc
  subst hc
  -- one case for each length of the sequence
  split_ifs with h1 h2 h3
  · have hb : (UInt8.ofNat v).toNat = v := by rw [UInt8.toNat_ofNat']; omega
    simp [itemsFrom, step, lead, hb, show v < 128 by omega]
  · exact itemsFrom_two (by omega) h2 bs
  · exact itemsFrom_three (by omega) h3 (by omega) bs
  · exact itemsFrom_four (by omega) (by omega) bs

theorem items_encode (s : List Char) : items (encode s) = s.map some := by
  induction s with
  | nil => rfl
  | cons c s ih =>
      rw [encode_cons, items, itemsFrom_encodeChar, ← items, ih, List.map_cons]

/-- The lossy reader gives a string back. -/
theorem lossy_encode (s : List Char) : lossy (encode s) = s := by
  rw [lossy, items_encode, List.map_map]
  exact List.map_id s

/-- There is a first bad run exactly when the items show one. -/
theorem errorFrom_eq_none_iff (s : State) (first pos : Nat) (bs : List UInt8) :
    errorFrom s first pos bs = none ↔ none ∉ itemsFrom s bs := by
  induction bs generalizing s first pos with
  | nil => cases s <;> simp [errorFrom, itemsFrom, flush]
  | cons b bs ih =>
      rw [itemsFrom, List.mem_append, not_or]
      cases s with
      | start =>
          rw [errorFrom, step]
          by_cases hbad : none ∈ (lead b).1
          · simp [hbad]
          · rw [if_neg hbad, ih]
            exact ⟨fun h => ⟨hbad, h⟩, fun h => h.2⟩
      | tail more code lo hi =>
          rw [errorFrom]
          by_cases hbad : none ∈ (step (.tail more code lo hi) b).1
          · simp [hbad]
          · rw [if_neg hbad, ih]
            exact ⟨fun h => ⟨hbad, h⟩, fun h => h.2⟩

/-- The strict reader gives a string back. -/
theorem fromUtf8_encode (s : List Char) : fromUtf8 (encode s) = .ok s := by
  have hclean : none ∉ items (encode s) := by simp [items_encode]
  rw [fromUtf8, (errorFrom_eq_none_iff .start 0 0 (encode s)).mpr hclean]
  exact congrArg Except.ok (lossy_encode s)

/-! ## ASCII bytes -/

/-- An ASCII byte closes an open sequence and is a character of its own. -/
theorem step_ascii (s : State) {b : UInt8} (h : b.toNat < 0x80) :
    step s b = (flush s ++ [some (asciiChar b)], .start) := by
  cases s with
  | start => exact lead_ascii h
  | tail more code lo hi =>
      cases more <;> rw [step, if_neg (by omega), lead_ascii h] <;> rfl

theorem itemsFrom_append_ascii (s : State) (xs ys : List UInt8) {b : UInt8}
    (h : b.toNat < 0x80) :
    itemsFrom s (xs ++ b :: ys) =
      itemsFrom s xs ++ some (asciiChar b) :: items ys := by
  induction xs generalizing s with
  | nil =>
      simp [itemsFrom, items, step_ascii s h]
  | cons x xs ih =>
      rw [List.cons_append, itemsFrom, itemsFrom, ih, List.append_assoc]

/-- The text on the two sides of an ASCII byte is read on its own. -/
theorem lossy_append_ascii (xs ys : List UInt8) {b : UInt8}
    (h : b.toNat < 0x80) :
    lossy (xs ++ b :: ys) = lossy xs ++ asciiChar b :: lossy ys := by
  simp [lossy, items, itemsFrom_append_ascii State.start xs ys h]

@[simp] theorem lossy_nil : lossy [] = [] := rfl

theorem lossy_cons_ascii (ys : List UInt8) {b : UInt8} (h : b.toNat < 0x80) :
    lossy (b :: ys) = asciiChar b :: lossy ys :=
  lossy_append_ascii [] ys h

/-- An ASCII part in front is its own text. -/
theorem lossy_ascii_append {xs : List UInt8} (h : IsAscii xs) (ys : List UInt8) :
    lossy (xs ++ ys) = xs.map asciiChar ++ lossy ys := by
  induction xs with
  | nil => simp
  | cons x xs ih =>
      rw [List.cons_append, lossy_cons_ascii _ (h x (by simp)),
        ih fun b hb => h b (by simp [hb])]
      simp

/-- An ASCII byte list is its own text. -/
theorem lossy_ascii {xs : List UInt8} (h : IsAscii xs) :
    lossy xs = xs.map asciiChar := by
  have := lossy_ascii_append h []
  simpa using this

/-- A scalar value outside of ASCII. -/
def WideScalar (v : Nat) : Prop :=
  0x80 ≤ v ∧ (v < 0xD800 ∨ 0xDFFF < v ∧ v < 0x110000)

/-- Every way to finish an open sequence gives a scalar value outside of
ASCII.  The reader keeps this: overlong forms, surrogates and values past the
end are ruled out by the bounds on the second byte. -/
def Sound : State → Prop
  | .start => True
  | .tail more code lo hi => ∀ p, lo ≤ p → p ≤ hi → ∀ w, w < 64 ^ more →
      WideScalar ((code * 64 + p) * 64 ^ more + w)

theorem lead_sound (b : UInt8) : Sound (lead b).2 := by
  have hb := b.toNat_lt
  simp only [lead]
  split_ifs <;> simp only [Sound, WideScalar] <;> intros <;> omega

theorem step_sound {s : State} (hs : Sound s) (b : UInt8) :
    Sound (step s b).2 := by
  cases s with
  | start => exact lead_sound b
  | tail more code lo hi =>
      by_cases hb : 0x80 + lo ≤ b.toNat ∧ b.toNat ≤ 0x80 + hi
      · cases more with
        | zero =>
          rw [step_tail_last hb]
          trivial
        | succ more =>
          rw [step_tail_mem hb]
          intro p _ hp w hw
          have hw' : p * 64 ^ more + w < 64 ^ (more + 1) := by
            have : p * 64 ^ more ≤ 63 * 64 ^ more := Nat.mul_le_mul_right _ hp
            rw [Nat.pow_succ]
            omega
          have h := hs (b.toNat - 0x80) (by omega) (by omega) _ hw'
          rw [show ((code * 64 + (b.toNat - 0x80)) * 64 + p) * 64 ^ more + w =
            (code * 64 + (b.toNat - 0x80)) * 64 ^ (more + 1) +
              (p * 64 ^ more + w) from by rw [Nat.pow_succ]; ring]
          exact h
      · cases more <;> rw [step, if_neg hb] <;> exact lead_sound b

theorem ofNat_toNat_of_wide {v : Nat} (h : WideScalar v) :
    (Char.ofNat v).toNat = v := by
  have hv : v.isValidChar := by
    rcases h.2 with h | h
    · exact Or.inl h
    · exact Or.inr h
  rw [Char.ofNat, dif_pos hv]
  rfl

/-- A character of one step is an ASCII byte or lies outside of ASCII. -/
theorem mem_step {s : State} (hs : Sound s) {b : UInt8} {c : Char}
    (h : some c ∈ (step s b).1) :
    0x80 ≤ c.toNat ∨ b.toNat < 0x80 ∧ c = asciiChar b := by
  have hlead : some c ∈ (lead b).1 → b.toNat < 0x80 ∧ c = asciiChar b := by
    simp only [lead]
    split_ifs with h0 <;> simp
    exact fun hc => ⟨h0, hc⟩
  cases s with
  | start => exact Or.inr (hlead h)
  | tail more code lo hi =>
      by_cases hb : 0x80 + lo ≤ b.toNat ∧ b.toNat ≤ 0x80 + hi
      · cases more with
        | zero =>
          rw [step_tail_last hb, List.mem_singleton, Option.some.injEq] at h
          have hv := hs (b.toNat - 0x80) (by omega) (by omega) 0 (by simp)
          simp only [Nat.pow_zero, Nat.mul_one, Nat.add_zero] at hv
          rw [h, ofNat_toNat_of_wide hv]
          exact Or.inl hv.1
        | succ more =>
          rw [step_tail_mem hb] at h
          simp at h
      · have hmem : some c ∈ (lead b).1 := by
          cases more <;> rw [step, if_neg hb] at h <;> simpa using h
        exact Or.inr (hlead hmem)

theorem mem_itemsFrom_ascii {s : State} (hs : Sound s) {bs : List UInt8}
    {c : Char} (hc : c.toNat < 0x80) (h : some c ∈ itemsFrom s bs) :
    ∃ b ∈ bs, c = asciiChar b ∧ b.toNat < 0x80 := by
  induction bs generalizing s with
  | nil => cases s <;> simp [itemsFrom, flush] at h
  | cons b bs ih =>
      rw [itemsFrom, List.mem_append] at h
      rcases h with h | h
      · rcases mem_step hs h with hwide | ⟨hb, he⟩
        · omega
        · exact ⟨b, by simp, he, hb⟩
      · obtain ⟨x, hx, he, hlt⟩ := ih (step_sound hs b) h
        exact ⟨x, by simp [hx], he, hlt⟩

/-- An ASCII character of the text comes from its own byte. -/
theorem mem_lossy_ascii {bs : List UInt8} {c : Char} (hc : c.toNat < 0x80)
    (h : c ∈ lossy bs) : ∃ b ∈ bs, c = asciiChar b ∧ b.toNat < 0x80 := by
  rw [lossy, List.mem_map] at h
  obtain ⟨o, ho, hoc⟩ := h
  cases o with
  | none =>
      rw [Option.getD_none] at hoc
      rw [← hoc] at hc
      exact absurd hc (by decide)
  | some c' =>
      rw [Option.getD_some] at hoc
      subst hoc
      exact mem_itemsFrom_ascii (s := .start) trivial hc ho

theorem asciiChar_toNat {b : UInt8} (h : b.toNat < 0x80) :
    (asciiChar b).toNat = b.toNat := by
  have hv : b.toNat.isValidChar := Or.inl (by omega)
  rw [asciiChar, Char.ofNat, dif_pos hv]
  rfl

/-- Without the byte of an ASCII character, the text is free of it. -/
theorem not_mem_lossy_ascii {bs : List UInt8} {b : UInt8} (hb : b.toNat < 0x80)
    (h : b ∉ bs) : asciiChar b ∉ lossy bs := by
  intro hmem
  obtain ⟨x, hx, he, hlt⟩ :=
    mem_lossy_ascii (by rw [asciiChar_toNat hb]; exact hb) hmem
  have hbx := congrArg Char.toNat he
  rw [asciiChar_toNat hb, asciiChar_toNat hlt] at hbx
  exact h (UInt8.toNat_inj.mp hbx ▸ hx)

end CodeLib.Utf8
