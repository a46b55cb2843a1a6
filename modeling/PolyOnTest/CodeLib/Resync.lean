import PolyOnTest.CodeLib.Delimited

/-!
# Reading on after a failure

A pass of `CodeLib.Delimited.drain` that fails leaves the buffer behind the
frame that failed.  The caller may then go on: one pass for each further read,
and at the end passes over the buffer alone until one of them succeeds.
`feedOn` is this caller.

A pass that fails gives no items, also not those of the frames that it decoded
before.  `Pass` says which frames a pass takes, and `feedOn_spec` says that the
caller gets the items of all frames exactly when no pass meets a frame with
items in front of a frame that fails.
-/

namespace CodeLib.Delimited

variable {α β ε : Type} [DecidableEq α]

/-- The complete frames of a list, with `buf` the part of the first one that is
read. -/
def framesFrom (d : α) : List α → List α → List (List α)
  | _, [] => []
  | buf, a :: input =>
      if a = d then buf :: framesFrom d [] input
      else framesFrom d (buf ++ [a]) input

/-- The complete frames of a list. -/
def frames (d : α) (input : List α) : List (List α) := framesFrom d [] input

/-- The items of an answer.  A failure has none. -/
def gives : Except ε (List β) → List β
  | .ok items => items
  | .error _ => []

/-- The passes over the buffer until one succeeds, at most `n` of them. -/
def settle (d : α) (decode : List α → Except ε (List β)) :
    Nat → List α → List β → Option (List α × List β)
  | 0, _, _ => none
  | n + 1, buf, out =>
      match drain d decode [] buf [] with
      | (rest, .ok items) => some (rest, out ++ items)
      | (rest, .error _) => settle d decode n rest out

/-- The caller that goes on after a failure.  A failed pass makes the buffer
shorter, so the length of the buffer bounds the passes at the end. -/
def feedOn (d : α) (decode : List α → Except ε (List β)) :
    List α → List (List α) → List β → Option (List α × List β)
  | buf, [], out => settle d decode (buf.length + 1) buf out
  | buf, chunk :: chunks, out =>
      feedOn d decode (drain d decode [] (buf ++ chunk) []).1 chunks
        (out ++ gives (drain d decode [] (buf ++ chunk) []).2)

/-- No frame with items stands in front of a frame that fails. -/
def InOrder (d : α) (decode : List α → Except ε (List β)) (bytes : List α) : Prop :=
  (frames d bytes).Pairwise fun a b => gives (decode a) ≠ [] → (decode b).isOk = true

/-- The bytes in front of each pass of the caller are in order. -/
def EachInOrder (d : α) (decode : List α → Except ε (List β)) :
    List α → List (List α) → Prop
  | _, [] => True
  | buf, chunk :: chunks =>
      InOrder d decode (buf ++ chunk) ∧
        EachInOrder d decode (drain d decode [] (buf ++ chunk) []).1 chunks

/-! ## Frames -/

section Frames

variable (d : α)

@[simp] theorem frames_nil : frames d ([] : List α) = [] := rfl

theorem framesFrom_cons_delim (buf input : List α) :
    framesFrom d buf (d :: input) = buf :: framesFrom d [] input := by
  rw [framesFrom, if_pos rfl]

theorem framesFrom_cons_ne {a : α} (h : a ≠ d) (buf input : List α) :
    framesFrom d buf (a :: input) = framesFrom d (buf ++ [a]) input := by
  rw [framesFrom, if_neg h]

/-- Elements other than the delimiter belong to the open frame. -/
theorem framesFrom_free {xs : List α} (h : d ∉ xs) (buf input : List α) :
    framesFrom d buf (xs ++ input) = framesFrom d (buf ++ xs) input := by
  induction xs generalizing buf with
  | nil => simp
  | cons x xs ih =>
      have hx : x ≠ d := fun he => h (by simp [he])
      have hxs : d ∉ xs := fun hm => h (by simp [hm])
      rw [List.cons_append, framesFrom_cons_ne d hx, ih hxs]
      simp

/-- The frames of a stream of whole frames. -/
theorem frames_flatMap {fs : List (List α)} (h : ∀ f ∈ fs, d ∉ f) :
    frames d (fs.flatMap fun f => f ++ [d]) = fs := by
  induction fs with
  | nil => rfl
  | cons f fs ih =>
      have hrest := ih fun x hx => h x (by simp [hx])
      rw [List.flatMap_cons, List.append_assoc, List.singleton_append, frames,
        framesFrom_free d (h f (by simp)), framesFrom_cons_delim, List.nil_append]
      exact congrArg (f :: ·) hrest

/-- A stream that ends with a delimiter is whole frames. -/
theorem exists_frames {xs : List α} (h : ∀ z, xs.getLast? = some z → z = d) :
    ∃ fs : List (List α), (fs.flatMap fun f => f ++ [d]) = xs ∧ ∀ f ∈ fs, d ∉ f := by
  induction xs with
  | nil => exact ⟨[], rfl, fun _ hf => absurd hf List.not_mem_nil⟩
  | cons x xs ih =>
      cases xs with
      | nil =>
        have hx : x = d := h x rfl
        exact ⟨[[]], by simp [hx], by simp⟩
      | cons y ys =>
        obtain ⟨fs, hfs, hfree⟩ := ih fun z hz => h z (by rw [List.getLast?_cons_cons, hz])
        cases fs with
        | nil => cases hfs
        | cons f fs =>
          by_cases hx : x = d
          · exact ⟨[] :: f :: fs, by simp [← hfs, hx], by simpa using hfree⟩
          · refine ⟨(x :: f) :: fs, by simp [← hfs], fun f' hf' => ?_⟩
            rcases List.mem_cons.mp hf' with heq | hf'
            · rw [heq, List.mem_cons, not_or]
              exact ⟨Ne.symm hx, hfree f (by simp)⟩
            · exact hfree f' (by simp [hf'])

theorem framesFrom_append_mono (buf xs more : List α) :
    framesFrom d buf xs <+: framesFrom d buf (xs ++ more) := by
  induction xs generalizing buf with
  | nil => exact List.nil_prefix
  | cons x xs ih =>
      by_cases hx : x = d
      · subst hx
        rw [List.cons_append, framesFrom_cons_delim, framesFrom_cons_delim]
        exact List.cons_prefix_cons.mpr ⟨rfl, ih []⟩
      · rw [List.cons_append, framesFrom_cons_ne d hx, framesFrom_cons_ne d hx]
        exact ih _

end Frames

/-! ## One pass -/

section Pass

variable {d : α} {decode : List α → Except ε (List β)}

/-- What a pass does with the frames of `bytes`: it takes those of `read` and
leaves `rest`.  On success it has taken all complete frames.  On a failure the
last one that it took is the one that failed. -/
structure Pass (d : α) (decode : List α → Except ε (List β)) (bytes rest : List α)
    (result : Except ε (List β)) (read : List (List α)) : Prop where
  split : ∀ more, frames d (bytes ++ more) = read ++ frames d (rest ++ more)
  ok : ∀ items, result = .ok items → (∀ f ∈ read, (decode f).isOk = true) ∧
    items = read.flatMap (fun f => gives (decode f)) ∧ frames d rest = []
  error : ∀ e, result = .error e →
    ∃ pre bad, read = pre ++ [bad] ∧ decode bad = .error e

theorem frames_cons_delim {buf : List α} (hbuf : d ∉ buf) (xs : List α) :
    frames d (buf ++ d :: xs) = buf :: frames d xs := by
  rw [frames, framesFrom_free d hbuf, framesFrom_cons_delim, List.nil_append, frames]

/-- A pass that fails at its first frame. -/
theorem Pass.bad {buf xs : List α} {e : ε} (hbuf : d ∉ buf) (h : decode buf = .error e) :
    Pass d decode (buf ++ d :: xs) xs (.error e) [buf] where
  split := by
    intro more
    rw [List.append_assoc, List.cons_append, frames_cons_delim hbuf]
    rfl
  ok := fun _ hitems => by cases hitems
  error := by
    intro e' he'
    injection he' with he'
    exact ⟨[], buf, rfl, he' ▸ h⟩

/-- A pass that takes its first frame. -/
theorem Pass.cons {buf xs rest : List α} {first : List β} {result : Except ε (List β)}
    {read : List (List α)} (hbuf : d ∉ buf) (hfirst : decode buf = .ok first)
    (h : Pass d decode xs rest result read) :
    Pass d decode (buf ++ d :: xs) rest (result.map (first ++ ·)) (buf :: read) where
  split := by
    intro more
    rw [List.append_assoc, List.cons_append, frames_cons_delim hbuf, h.split more]
    rfl
  ok := by
    intro all hall
    cases result with
    | error e => cases hall
    | ok items =>
      obtain ⟨hok, hitems, hnone⟩ := h.ok items rfl
      injection hall with hall
      refine ⟨List.forall_mem_cons.mpr ⟨by rw [hfirst]; rfl, hok⟩, ?_, hnone⟩
      rw [← hall, List.flatMap_cons, hfirst, ← hitems]
      rfl
  error := by
    intro e he
    cases result with
    | ok items => cases he
    | error e' =>
      obtain ⟨pre, bad, hpre, hbad⟩ := h.error e' rfl
      injection he with he
      exact ⟨buf :: pre, bad, by rw [hpre, List.cons_append], he ▸ hbad⟩

/-- The spec of a pass, by induction on the input. -/
theorem drain_pass (d : α) (decode : List α → Except ε (List β)) {buf : List α}
    (hbuf : d ∉ buf) (xs : List α) :
    ∃ read, Pass d decode (buf ++ xs) (drain d decode buf xs []).1
      (drain d decode buf xs []).2 read := by
  induction xs generalizing buf with
  | nil =>
      refine ⟨[], by simp, ?_, by simp⟩
      intro items hitems
      obtain rfl : [] = items := by simpa using hitems
      have hfree := framesFrom_free d hbuf [] []
      exact ⟨by simp, rfl, by simpa [frames, framesFrom] using hfree⟩
  | cons x xs ih =>
      by_cases hx : x = d
      · subst hx
        rw [drain_cons_delim]
        cases hdecode : decode buf with
        | error e => exact ⟨[buf], Pass.bad hbuf hdecode⟩
        | ok first =>
          obtain ⟨read, hread⟩ := @ih [] List.not_mem_nil
          have hpass := Pass.cons hbuf hdecode hread
          dsimp only
          rw [drain_out]
          refine ⟨buf :: read, ?_⟩
          generalize drain x decode [] xs [] = result at hpass ⊢
          obtain ⟨rest, e | items⟩ := result
          · exact hpass
          · exact hpass
      · have hbuf' : d ∉ buf ++ [x] := by
          simp [hbuf, Ne.symm hx]
        rw [drain_cons_ne d decode hx, List.append_cons]
        exact ih hbuf'

/-- A pass that fails takes an element at least. -/
theorem drain_error_length {buf xs rest : List α} {out : List β} {e : ε}
    (h : drain d decode buf xs out = (rest, .error e)) : rest.length < xs.length := by
  induction xs generalizing buf out with
  | nil => simp at h
  | cons x xs ih =>
      by_cases hx : x = d
      · subst hx
        rw [drain_cons_delim] at h
        cases hdecode : decode buf with
        | ok items =>
          rw [hdecode] at h
          exact Nat.lt_succ_of_lt (ih h)
        | error e' =>
          rw [hdecode] at h
          obtain ⟨rfl, -⟩ : xs = rest ∧ _ := by simpa using h
          simp
      · rw [drain_cons_ne d decode hx] at h
        exact Nat.lt_succ_of_lt (ih h)

/-! ## What the caller gets -/

/-- The items of all complete frames. -/
def found (d : α) (decode : List α → Except ε (List β)) (bytes : List α) : List β :=
  (frames d bytes).flatMap fun f => gives (decode f)

variable {bytes rest : List α} {result : Except ε (List β)} {read : List (List α)}

theorem Pass.found_append (h : Pass d decode bytes rest result read) (more : List α) :
    found d decode (bytes ++ more) =
      read.flatMap (fun f => gives (decode f)) ++ found d decode (rest ++ more) := by
  rw [found, h.split more, List.flatMap_append]
  rfl

/-- A pass gives all items of the frames that it takes, or none. -/
theorem Pass.gives_length (h : Pass d decode bytes rest result read) :
    (gives result).length ≤ (read.flatMap fun f => gives (decode f)).length := by
  cases result with
  | error e => exact Nat.zero_le _
  | ok items => exact Nat.le_of_eq (congrArg _ (h.ok items rfl).2.1)

/-- The frames in front of a pass are in order when the pass loses no item and
what it leaves is in order. -/
theorem Pass.inOrder_iff (h : Pass d decode bytes rest result read) :
    InOrder d decode bytes ↔
      gives result = read.flatMap (fun f => gives (decode f)) ∧ InOrder d decode rest := by
  have hframes : frames d bytes = read ++ frames d rest := by
    simpa using h.split []
  unfold InOrder
  rw [hframes, List.pairwise_append]
  cases result with
  | ok items =>
    obtain ⟨hok, hitems, hnone⟩ := h.ok items rfl
    have hread : read.Pairwise fun a b => gives (decode a) ≠ [] → (decode b).isOk = true :=
      List.pairwise_of_forall_mem_list fun _ _ b hb _ => hok b hb
    rw [hnone]
    exact ⟨fun _ => ⟨hitems, List.Pairwise.nil⟩,
      fun _ => ⟨hread, List.Pairwise.nil, fun _ _ b hb => (List.not_mem_nil hb).elim⟩⟩
  | error e =>
    obtain ⟨pre, bad, rfl, hbad⟩ := h.error e rfl
    have hfails : (decode bad).isOk = false := by rw [hbad]; rfl
    have hnone : gives (decode bad) = [] := by rw [hbad]; rfl
    have hempty : gives (Except.error e : Except ε (List β)) =
        (pre ++ [bad]).flatMap (fun f => gives (decode f)) ↔
          ∀ a ∈ pre, gives (decode a) = [] := by
      rw [gives, eq_comm]
      simp [hnone]
    rw [hempty]
    constructor
    · rintro ⟨hread, hrest, -⟩
      refine ⟨fun a ha => ?_, hrest⟩
      by_contra hitems
      have hpair := (List.pairwise_append.mp hread).2.2 a ha bad (by simp) hitems
      rw [hfails] at hpair
      exact Bool.false_ne_true hpair
    · rintro ⟨hpre, hrest⟩
      have hread : ∀ a ∈ pre ++ [bad], gives (decode a) = [] := by
        intro a ha
        rcases List.mem_append.mp ha with ha | ha
        · exact hpre a ha
        · rw [List.mem_singleton.mp ha, hnone]
      exact ⟨List.pairwise_of_forall_mem_list fun a ha _ _ hitems =>
        absurd (hread a ha) hitems, hrest, fun a ha _ _ hitems =>
          absurd (hread a ha) hitems⟩

theorem inOrder_of_append {bytes more : List α} (h : InOrder d decode (bytes ++ more)) :
    InOrder d decode bytes :=
  List.Pairwise.sublist (framesFrom_append_mono d [] bytes more).sublist h

/-- Two halves of a list, each at most as long as it should be, are the list only
when each of them is right. -/
theorem append_eq_iff_of_length {as bs as' bs' : List β} (ha : as.length ≤ as'.length)
    (hb : bs.length ≤ bs'.length) : as ++ bs = as' ++ bs' ↔ as = as' ∧ bs = bs' := by
  constructor
  · intro h
    have hlen := congrArg List.length h
    simp only [List.length_append] at hlen
    exact List.append_inj h (by omega)
  · rintro ⟨rfl, rfl⟩
    rfl

/-- One pass, with `items` what the passes behind it give. -/
theorem Pass.step (h : Pass d decode bytes rest result read) (more : List α)
    (items : List β) (hlen : items.length ≤ (found d decode (rest ++ more)).length) :
    (gives result ++ items).length ≤ (found d decode (bytes ++ more)).length ∧
      (gives result ++ items = found d decode (bytes ++ more) ↔
        gives result = read.flatMap (fun f => gives (decode f)) ∧
          items = found d decode (rest ++ more)) := by
  have hgives := h.gives_length
  rw [h.found_append more, append_eq_iff_of_length hgives hlen]
  refine ⟨?_, Iff.rfl⟩
  rw [List.length_append, List.length_append]
  omega

/-- The passes at the end: they come to an end, and they give all items exactly
when the buffer is in order. -/
theorem settle_spec (d : α) (decode : List α → Except ε (List β)) {n : Nat}
    {buf : List α} (hn : buf.length < n) (out : List β) :
    ∃ rest items, settle d decode n buf out = some (rest, out ++ items) ∧
      items.length ≤ (found d decode buf).length ∧
      (items = found d decode buf ↔ InOrder d decode buf) := by
  induction n generalizing buf out with
  | zero => omega
  | succ n ih =>
      obtain ⟨read, hpass⟩ := drain_pass d decode List.not_mem_nil buf
      have hiff := hpass.inOrder_iff
      have hstep := hpass.step []
      rw [List.nil_append] at hiff
      simp only [List.append_nil, List.nil_append] at hstep
      rw [settle, hiff]
      rcases hdrain : drain d decode [] buf [] with ⟨rest, e | items⟩
      · have hshort := drain_error_length hdrain
        obtain ⟨rest', items, hsettle, hlen, hall⟩ := @ih rest (by omega) out
        rw [hdrain] at hstep
        rw [← hall]
        exact ⟨rest', items, hsettle, hstep items hlen⟩
      · rw [hdrain] at hstep hpass
        have hnone : frames d rest = [] := (hpass.ok items rfl).2.2
        have hrest : found d decode rest = [] ∧ InOrder d decode rest := by
          simp [found, InOrder, hnone]
        have hlast := hstep [] (Nat.zero_le _)
        rw [List.append_nil, hrest.1] at hlast
        refine ⟨rest, items, rfl, hlast.1, hlast.2.trans ?_⟩
        exact and_congr_right fun _ => iff_of_true rfl hrest.2

/-- The caller gets all items of all frames exactly when the bytes in front of
each of its passes are in order. -/
theorem feedOn_spec (d : α) (decode : List α → Except ε (List β)) (buf : List α)
    (chunks : List (List α)) (out : List β) :
    ∃ rest items, feedOn d decode buf chunks out = some (rest, out ++ items) ∧
      items.length ≤ (found d decode (buf ++ chunks.flatten)).length ∧
      (items = found d decode (buf ++ chunks.flatten) ↔
        EachInOrder d decode buf chunks ∧ InOrder d decode buf) := by
  induction chunks generalizing buf out with
  | nil =>
      have h := settle_spec d decode (Nat.lt_succ_self buf.length) out
      simpa [feedOn, EachInOrder] using h
  | cons chunk chunks ih =>
      obtain ⟨read, hpass⟩ :=
        drain_pass d decode List.not_mem_nil (buf ++ chunk)
      have hiff := hpass.inOrder_iff
      rw [List.nil_append] at hpass hiff
      obtain ⟨rest', items, hfeed, hlen, hall⟩ :=
        ih (drain d decode [] (buf ++ chunk) []).1
          (out ++ gives (drain d decode [] (buf ++ chunk) []).2)
      obtain ⟨hle, hequal⟩ := hpass.step chunks.flatten items hlen
      rw [List.append_assoc, ← List.flatten_cons] at hle hequal
      refine ⟨rest', _, by rw [feedOn, hfeed, List.append_assoc], hle, ?_⟩
      rw [hequal, hall, EachInOrder, hiff]
      constructor
      · rintro ⟨hgives, heach, hrest⟩
        exact ⟨⟨⟨hgives, hrest⟩, heach⟩, inOrder_of_append (hiff.mpr ⟨hgives, hrest⟩)⟩
      · rintro ⟨⟨⟨hgives, hrest⟩, heach⟩, -⟩
        exact ⟨hgives, heach, hrest⟩

end Pass

end CodeLib.Delimited
