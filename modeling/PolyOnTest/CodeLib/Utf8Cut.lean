import PolyOnTest.CodeLib.Utf8

/-!
# UTF-8 text in pieces

A byte stream that is decoded piece by piece, each piece on its own.  A piece that
ends inside a character gives replacement characters, on both sides of the cut.

`flatMap_lossy_iff` says that the pieces of a string give the string back exactly
when each of them is UTF-8 on its own.  One direction is the inversion of
`CodeLib.Utf8`.  The other one counts: a cut inside a character only adds items
(`length_items_append`), and it adds at least one.
-/

namespace CodeLib.Utf8

/-- Bytes that are the encoding of a string. -/
def IsUtf8 (bs : List UInt8) : Prop := ∃ s, bs = encode s

/-- The reader over some bytes: the items so far and the state behind them. -/
def readFrom : State → List UInt8 → List (Option Char) × State
  | s, [] => ([], s)
  | s, b :: bs =>
      ((step s b).1 ++ (readFrom (step s b).2 bs).1, (readFrom (step s b).2 bs).2)

theorem itemsFrom_append (s : State) (xs ys : List UInt8) :
    itemsFrom s (xs ++ ys) = (readFrom s xs).1 ++ itemsFrom (readFrom s xs).2 ys := by
  induction xs generalizing s with
  | nil => rfl
  | cons x xs ih =>
      rw [List.cons_append, itemsFrom, ih, readFrom, List.append_assoc]

theorem readFrom_append (s : State) (xs ys : List UInt8) :
    (readFrom s (xs ++ ys)).2 = (readFrom (readFrom s xs).2 ys).2 := by
  induction xs generalizing s with
  | nil => rfl
  | cons x xs ih => exact ih _

theorem itemsFrom_eq (s : State) (xs : List UInt8) :
    itemsFrom s xs = (readFrom s xs).1 ++ flush (readFrom s xs).2 := by
  have h := itemsFrom_append s xs []
  rwa [List.append_nil] at h

/-! ## A state only takes tail bytes -/

/-- The next byte of an open sequence is below `0xC0`. -/
def Narrow : State → Prop
  | .start => True
  | .tail _ _ _ hi => hi ≤ 0x3F

/-- A leading byte is an item of its own, or it opens a sequence. -/
theorem lead_cases (b : UInt8) :
    ((lead b).1 ≠ [] ∧ (lead b).2 = .start) ∨
      ∃ more code lo hi, lead b = ([], .tail more code lo hi) ∧ hi ≤ 0x3F := by
  generalize hread : lead b = read
  unfold lead at hread
  dsimp only at hread
  split_ifs at hread <;> subst hread <;> first
    | exact Or.inl ⟨List.cons_ne_nil _ _, rfl⟩
    | exact Or.inr ⟨_, _, _, _, rfl, by omega⟩

theorem lead_narrow (b : UInt8) : Narrow (lead b).2 := by
  rcases lead_cases b with ⟨-, hstart⟩ | ⟨more, code, lo, hi, hlead, hhi⟩
  · rw [hstart]
    trivial
  · rw [hlead]
    exact hhi

theorem step_narrow {s : State} (hs : Narrow s) (b : UInt8) : Narrow (step s b).2 := by
  cases s with
  | start => exact lead_narrow b
  | tail more code lo hi =>
      by_cases hb : 0x80 + lo ≤ b.toNat ∧ b.toNat ≤ 0x80 + hi
      · cases more with
        | zero =>
          rw [step_tail_last hb]
          trivial
        | succ more =>
          rw [step_tail_mem hb]
          show 0x3F ≤ 0x3F
          omega
      · cases more <;> rw [step, if_neg hb] <;> exact lead_narrow b

theorem readFrom_narrow {s : State} (hs : Narrow s) (xs : List UInt8) :
    Narrow (readFrom s xs).2 := by
  induction xs generalizing s with
  | nil => exact hs
  | cons x xs ih => exact ih (step_narrow hs x)

/-- A tail byte on its own is a bad run. -/
theorem lead_tailByte {b : UInt8} (hlo : 0x80 ≤ b.toNat) (hhi : b.toNat < 0xC0) :
    lead b = ([none], .start) := by
  simp only [lead]
  rw [if_neg (by omega), if_pos (by omega)]

theorem items_tailByte {b : UInt8} (hlo : 0x80 ≤ b.toNat) (hhi : b.toNat < 0xC0)
    (bs : List UInt8) : items (b :: bs) = none :: items bs := by
  show (lead b).1 ++ itemsFrom (lead b).2 bs = _
  rw [lead_tailByte hlo hhi]
  rfl

theorem step_tail_not {more code lo hi : Nat} {b : UInt8}
    (h : ¬ (0x80 + lo ≤ b.toNat ∧ b.toNat ≤ 0x80 + hi)) :
    step (.tail more code lo hi) b = (none :: (lead b).1, (lead b).2) := by
  cases more <;> rw [step, if_neg h]

/-! ## A cut adds items -/

/-- The bytes behind a cut have at most one item more on the other side of it. -/
theorem length_itemsFrom_le {s : State} (hs : Narrow s) (ys : List UInt8) :
    (itemsFrom s ys).length ≤ (flush s).length + (items ys).length := by
  induction ys generalizing s with
  | nil => exact Nat.le_add_right _ _
  | cons y ys ih =>
      cases s with
      | start => exact Nat.le_add_left _ _
      | tail more code lo hi =>
        have hhi : hi ≤ 0x3F := hs
        by_cases hy : 0x80 + lo ≤ y.toNat ∧ y.toNat ≤ 0x80 + hi
        · rw [items_tailByte (by omega) (by omega), itemsFrom]
          cases more with
          | zero =>
            rw [step_tail_last hy]
            show (items ys).length + 1 ≤ 1 + ((items ys).length + 1)
            omega
          | succ more =>
            rw [step_tail_mem hy]
            have hrest := @ih (.tail more (code * 64 + (y.toNat - 0x80)) 0 0x3F)
              (Nat.le_refl 0x3F)
            simp only [List.nil_append, flush, List.length_cons, List.length_nil] at hrest ⊢
            omega
        · rw [itemsFrom, step_tail_not hy]
          show _ ≤ 1 + ((lead y).1 ++ itemsFrom (lead y).2 ys).length
          simp only [List.cons_append, List.length_cons]
          omega

/-- Inside of a character the cut adds an item. -/
theorem length_itemsFrom_lt {more code lo hi : Nat} (hhi : hi ≤ 0x3F) {ys : List UInt8}
    (hgood : none ∉ itemsFrom (.tail more code lo hi) ys) :
    (itemsFrom (.tail more code lo hi) ys).length < 1 + (items ys).length := by
  cases ys with
  | nil => exact absurd (List.mem_singleton.mpr rfl) hgood
  | cons y ys =>
      by_cases hy : 0x80 + lo ≤ y.toNat ∧ y.toNat ≤ 0x80 + hi
      · rw [items_tailByte (by omega) (by omega), itemsFrom]
        cases more with
        | zero =>
          rw [step_tail_last hy]
          show (items ys).length + 1 < 1 + ((items ys).length + 1)
          omega
        | succ more =>
          rw [step_tail_mem hy]
          have hrest := @length_itemsFrom_le (.tail more (code * 64 + (y.toNat - 0x80)) 0 0x3F)
            (Nat.le_refl 0x3F) ys
          simp only [List.nil_append, flush, List.length_cons, List.length_nil] at hrest ⊢
          omega
      · refine absurd ?_ hgood
        rw [itemsFrom, step_tail_not hy]
        exact List.mem_cons_self

theorem length_items_append (xs ys : List UInt8) :
    (items (xs ++ ys)).length ≤ (items xs).length + (items ys).length := by
  have hle := length_itemsFrom_le (@readFrom_narrow .start trivial xs) ys
  have hxs := congrArg List.length (itemsFrom_eq .start xs)
  rw [items, itemsFrom_append, items]
  rw [List.length_append] at hxs ⊢
  omega

/-- The pieces of a stream have as many items as the stream at least. -/
theorem length_items_flatten (chunks : List (List UInt8)) :
    (items chunks.flatten).length ≤ (chunks.flatMap lossy).length := by
  induction chunks with
  | nil => exact Nat.le_refl 0
  | cons chunk chunks ih =>
      have hcut := length_items_append chunk chunks.flatten
      have hlossy : (lossy chunk).length = (items chunk).length := List.length_map _
      rw [List.flatten_cons, List.flatMap_cons, List.length_append]
      omega

/-! ## A cut between two characters -/

theorem itemsFrom_tail_ne_nil (more code lo hi : Nat) (bs : List UInt8) :
    itemsFrom (.tail more code lo hi) bs ≠ [] := by
  induction bs generalizing more code lo hi with
  | nil => exact List.cons_ne_nil _ _
  | cons b bs ih =>
      rw [itemsFrom]
      by_cases hb : 0x80 + lo ≤ b.toNat ∧ b.toNat ≤ 0x80 + hi
      · cases more with
        | zero =>
          rw [step_tail_last hb]
          exact List.cons_ne_nil _ _
        | succ more =>
          rw [step_tail_mem hb]
          exact ih _ _ _ _
      · rw [step_tail_not hb]
        exact List.cons_ne_nil _ _

/-- Bytes have an item. -/
theorem items_ne_nil {bs : List UInt8} (h : bs ≠ []) : items bs ≠ [] := by
  obtain ⟨b, bs, rfl⟩ := List.exists_cons_of_ne_nil h
  show (lead b).1 ++ itemsFrom (lead b).2 bs ≠ []
  rcases lead_cases b with ⟨hne, -⟩ | ⟨more, code, lo, hi, hlead, -⟩
  · exact List.append_ne_nil_of_left_ne_nil hne _
  · rw [hlead]
    exact itemsFrom_tail_ne_nil more code lo hi bs

/-- The reader over one character. -/
theorem readFrom_encodeChar (c : Char) :
    readFrom .start (String.utf8EncodeChar c) = ([some c], .start) := by
  have hitems := itemsFrom_encodeChar c []
  rw [List.append_nil, itemsFrom_eq] at hitems
  rcases hread : readFrom .start (String.utf8EncodeChar c) with ⟨read, more | _⟩
  · rw [hread] at hitems
    simpa [flush, itemsFrom] using hitems
  · rw [hread] at hitems
    have hlast := congrArg List.getLast? hitems
    simp [flush, itemsFrom] at hlast

/-- Where the reader is between two sequences, the string is cut in two. -/
theorem split_of_start {s : List Char} {xs ys : List UInt8} (h : xs ++ ys = encode s)
    (hstart : (readFrom .start xs).2 = .start) : IsUtf8 xs ∧ IsUtf8 ys := by
  induction s generalizing xs with
  | nil =>
      obtain ⟨rfl, rfl⟩ := List.append_eq_nil_iff.mp h
      exact ⟨⟨[], rfl⟩, ⟨[], rfl⟩⟩
  | cons c s ih =>
      rw [encode_cons, List.append_eq_append_iff] at h
      rcases h with ⟨zs, hchar, hys⟩ | ⟨zs, hxs, hrest⟩
      · by_cases hnil : xs = []
        · rw [hnil, List.nil_append] at hchar
          exact ⟨⟨[], hnil⟩, ⟨c :: s, by rw [hys, ← hchar, encode_cons]⟩⟩
        by_cases hend : zs = []
        · rw [hend, List.append_nil] at hchar
          rw [hend, List.nil_append] at hys
          exact ⟨⟨[c], by rw [← hchar]; simp⟩, ⟨s, hys⟩⟩
        -- a cut inside of the character would give two items
        have hitems := itemsFrom_encodeChar c []
        rw [List.append_nil, hchar, itemsFrom_append, hstart] at hitems
        have hfront : (readFrom .start xs).1 = items xs := by
          rw [items, itemsFrom_eq, hstart, flush, List.append_nil]
        have hlen := congrArg List.length hitems
        have hxs := List.length_pos_iff.mpr (items_ne_nil hnil)
        have hzs := List.length_pos_iff.mpr (items_ne_nil hend)
        rw [hfront, List.length_append] at hlen
        simp only [itemsFrom, flush, List.length_cons, List.length_nil] at hlen
        rw [items] at hzs
        omega
      · have hread : (readFrom .start zs).2 = .start := by
          rw [hxs, readFrom_append, readFrom_encodeChar] at hstart
          exact hstart
        obtain ⟨⟨t, rfl⟩, hys⟩ := ih hrest.symm hread
        exact ⟨⟨c :: t, hxs⟩, hys⟩

theorem isUtf8_flatten {chunks : List (List UInt8)} (h : ∀ chunk ∈ chunks, IsUtf8 chunk) :
    IsUtf8 chunks.flatten := by
  induction chunks with
  | nil => exact ⟨[], rfl⟩
  | cons chunk chunks ih =>
      obtain ⟨t, rfl⟩ := h chunk (by simp)
      obtain ⟨u, hu⟩ := ih fun x hx => h x (by simp [hx])
      exact ⟨t ++ u, by rw [List.flatten_cons, hu, encode_append]⟩

/-- Pieces that give the string back do not end inside of a character. -/
theorem start_of_text {s : List Char} {chunk : List UInt8} {chunks : List (List UInt8)}
    (h : chunk ++ chunks.flatten = encode s)
    (htext : lossy chunk ++ chunks.flatMap lossy = s) :
    (readFrom .start chunk).2 = .start := by
  have hitems : items (chunk ++ chunks.flatten) = s.map some := by rw [h, items_encode]
  have hnarrow := @readFrom_narrow .start trivial chunk
  have hchunk := itemsFrom_eq .start chunk
  rw [items, itemsFrom_append] at hitems
  rcases hread : readFrom .start chunk with ⟨read, _ | ⟨more, code, lo, hi⟩⟩
  · rfl
  · exfalso
    rw [hread] at hitems hnarrow hchunk
    have hgood : none ∉ itemsFrom (.tail more code lo hi) chunks.flatten := by
      intro hnone
      have hmem : none ∈ s.map some := by
        rw [← hitems]
        exact List.mem_append_right _ hnone
      simp at hmem
    have hmore := length_itemsFrom_lt hnarrow hgood
    have hflatten := length_items_flatten chunks
    have hlossy : (lossy chunk).length = read.length + 1 := by
      show (List.map _ (itemsFrom .start chunk)).length = _
      rw [List.length_map, hchunk]
      simp [flush]
    have hlen := congrArg List.length hitems
    have hall := congrArg List.length htext
    rw [List.length_append] at hlen hall
    rw [List.length_map] at hlen
    dsimp only at hlen
    omega

/-- The pieces of a string give it back exactly when no piece ends inside of a
character. -/
theorem flatMap_lossy_iff {s : List Char} {chunks : List (List UInt8)}
    (h : chunks.flatten = encode s) :
    chunks.flatMap lossy = s ↔ ∀ chunk ∈ chunks, IsUtf8 chunk := by
  induction chunks generalizing s with
  | nil =>
      have hs : lossy (encode s) = lossy [] := by rw [← h]; rfl
      rw [lossy_encode] at hs
      simp [hs]
  | cons chunk chunks ih =>
      rw [List.flatten_cons] at h
      rw [List.flatMap_cons, List.forall_mem_cons]
      have hsplit : ∀ {t u}, chunk = encode t → chunks.flatten = encode u → s = t ++ u := by
        intro t u ht hu
        rw [← lossy_encode s, ← h, ht, hu, ← encode_append, lossy_encode]
      constructor
      · intro htext
        obtain ⟨⟨t, ht⟩, ⟨u, hu⟩⟩ := split_of_start h (start_of_text h htext)
        rw [ht, lossy_encode, hsplit ht hu] at htext
        exact ⟨⟨t, ht⟩, (ih hu).mp (List.append_cancel_left htext)⟩
      · rintro ⟨⟨t, ht⟩, hchunks⟩
        obtain ⟨u, hu⟩ := isUtf8_flatten hchunks
        rw [ht, lossy_encode, (ih hu).mpr hchunks, hsplit ht hu]

/-- Text that ends with a whole character is read by itself. -/
theorem lossy_append_text {xs : List UInt8} (h : IsUtf8 xs) (ys : List UInt8) :
    lossy (xs ++ ys) = lossy xs ++ lossy ys := by
  have hitems : ∀ s : List Char, items (encode s ++ ys) = s.map some ++ items ys := by
    intro s
    induction s with
    | nil => rfl
    | cons c s ih =>
        rw [encode_cons, List.append_assoc, items, itemsFrom_encodeChar, ← items, ih]
        rfl
  obtain ⟨s, rfl⟩ := h
  rw [lossy, hitems, List.map_append, lossy_encode, List.map_map]
  exact congrArg (· ++ lossy ys) (List.map_id s)

/-- There is at most one character for each byte. -/
theorem length_lossy_le (bs : List UInt8) : (lossy bs).length ≤ bs.length := by
  unfold lossy
  rw [List.length_map]
  induction bs with
  | nil => exact Nat.le_refl 0
  | cons b bs ih =>
      have hcut := length_items_append [b] bs
      have hone : (items [b]).length = 1 := by
        show ((lead b).1 ++ flush (lead b).2).length = 1
        generalize hread : lead b = read
        unfold lead at hread
        dsimp only at hread
        split_ifs at hread <;> subst hread <;> rfl
      rw [List.length_cons]
      rw [List.singleton_append] at hcut
      omega

end CodeLib.Utf8
