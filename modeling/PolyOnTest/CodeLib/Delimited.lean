import Mathlib.Data.List.Basic

/-!
# Streams cut at a delimiter

A reader that collects elements in a buffer, and that hands the buffer to a
decoder each time the delimiter arrives.  `drain` is one pass of that reader
over a list, and `feedAll` is the reader over a list of reads, with the buffer
carried from one read to the next.

There are three groups.

* One pass.  `drain_append` cuts a pass at any point, `drain_closed` cuts it
  behind a delimiter, and `drain_frame` is the pass over one whole frame.
* The buffer.  `drain_buffer_free` says that a pass leaves no delimiter behind,
  and `drain_segments` says which part of the input it leaves.
* The reads.  `feedAll_eq_drain` replaces any list of reads by one pass over
  their concatenation, so the cuts between the reads do not matter.

The decoder of one frame is a parameter.  It may fail, and the pass then stops
behind the delimiter of the frame that failed.
-/

namespace CodeLib.Delimited

variable {α β ε : Type} [DecidableEq α]

/-- One pass over `input`.  `buf` holds the open frame and `out` the results
so far.  The first component of the answer is what the pass leaves in the
buffer: the open frame at the end of the input, or everything behind the
delimiter of the frame that failed. -/
def drain (d : α) (decode : List α → Except ε (List β)) :
    List α → List α → List β → List α × Except ε (List β)
  | buf, [], out => (buf, .ok out)
  | buf, a :: input, out =>
      if a = d then
        match decode buf with
        | .ok items => drain d decode [] input (out ++ items)
        | .error e => (input, .error e)
      else drain d decode (buf ++ [a]) input out

/-- The reader over a list of reads.  Each read is put behind the buffer, and
the pass starts again at the front of the buffer.  The first failure stops the
reader. -/
def feedAll (d : α) (decode : List α → Except ε (List β)) :
    List α → List (List α) → List β → List α × Except ε (List β)
  | buf, [], out => (buf, .ok out)
  | buf, chunk :: chunks, out =>
      match drain d decode [] (buf ++ chunk) [] with
      | (rest, .ok items) => feedAll d decode rest chunks (out ++ items)
      | (rest, .error e) => (rest, .error e)

section Drain

variable (d : α) (decode : List α → Except ε (List β))

@[simp] theorem drain_nil (buf : List α) (out : List β) :
    drain d decode buf [] out = (buf, .ok out) := rfl

theorem drain_cons_delim (buf input : List α) (out : List β) :
    drain d decode buf (d :: input) out =
      match decode buf with
      | .ok items => drain d decode [] input (out ++ items)
      | .error e => (input, .error e) := by
  rw [drain, if_pos rfl]

theorem drain_cons_ne {a : α} (h : a ≠ d) (buf input : List α) (out : List β) :
    drain d decode buf (a :: input) out =
      drain d decode (buf ++ [a]) input out := by
  rw [drain, if_neg h]

/-- Elements other than the delimiter go to the buffer. -/
theorem drain_free {xs : List α} (h : d ∉ xs) (buf input : List α)
    (out : List β) :
    drain d decode buf (xs ++ input) out =
      drain d decode (buf ++ xs) input out := by
  induction xs generalizing buf with
  | nil => simp
  | cons x xs ih =>
      have hx : x ≠ d := fun he => h (by simp [he])
      have hxs : d ∉ xs := fun hm => h (by simp [hm])
      rw [List.cons_append, drain_cons_ne d decode hx, ih hxs]
      simp

/-- The pass over one whole frame. -/
theorem drain_frame {frame : List α} (h : d ∉ frame) (input : List α)
    (out : List β) :
    drain d decode [] (frame ++ d :: input) out =
      match decode frame with
      | .ok items => drain d decode [] input (out ++ items)
      | .error e => (input, .error e) := by
  rw [drain_free d decode h, drain_cons_delim]
  simp

/-- A pass cut in two.  The second part starts with the buffer and the results
that the first part left. -/
theorem drain_append (buf xs ys : List α) (out : List β) :
    drain d decode buf (xs ++ ys) out =
      match drain d decode buf xs out with
      | (rest, .ok out') => drain d decode rest ys out'
      | (rest, .error e) => (rest ++ ys, .error e) := by
  induction xs generalizing buf out with
  | nil => simp
  | cons x xs ih =>
      by_cases hx : x = d
      · subst hx
        rw [List.cons_append, drain_cons_delim, drain_cons_delim]
        cases decode buf with
        | ok items => exact ih [] (out ++ items)
        | error e => rfl
      · rw [List.cons_append, drain_cons_ne d decode hx,
          drain_cons_ne d decode hx, ih]

/-- The pass only adds to the results it starts with. -/
theorem drain_out (buf xs : List α) (out : List β) :
    drain d decode buf xs out =
      match drain d decode buf xs [] with
      | (rest, .ok items) => (rest, .ok (out ++ items))
      | (rest, .error e) => (rest, .error e) := by
  induction xs generalizing buf out with
  | nil => simp
  | cons x xs ih =>
      by_cases hx : x = d
      · subst hx
        rw [drain_cons_delim, drain_cons_delim]
        cases decode buf with
        | ok items =>
          dsimp only
          rw [ih [] (out ++ items), ih [] ([] ++ items)]
          rcases drain x decode [] xs [] with ⟨rest, _ | more⟩
          · rfl
          · simp
        | error e => rfl
      · rw [drain_cons_ne d decode hx, drain_cons_ne d decode hx, ih]

/-- Behind a delimiter the pass starts anew. -/
theorem drain_closed (buf xs ys : List α) :
    (drain d decode buf (xs ++ d :: ys) []).2 =
      (drain d decode buf (xs ++ [d]) []).2.bind fun out =>
        (drain d decode [] ys []).2.map (out ++ ·) := by
  rw [drain_append, drain_append]
  rcases drain d decode buf xs [] with ⟨rest, e | items⟩
  · rfl
  · dsimp only
    rw [drain_cons_delim, drain_cons_delim]
    cases decode rest with
    | error e => rfl
    | ok last =>
      dsimp only
      rw [drain_out, drain_nil]
      rcases drain d decode [] ys [] with ⟨rest', e | more⟩
      · rfl
      · rfl

/-- A pass that does not fail leaves a buffer without a delimiter. -/
theorem drain_buffer_free {buf xs rest : List α} {out out' : List β}
    (hbuf : d ∉ buf) (h : drain d decode buf xs out = (rest, .ok out')) :
    d ∉ rest := by
  induction xs generalizing buf out with
  | nil =>
      obtain ⟨rfl, -⟩ : buf = rest ∧ _ := by simpa using h
      exact hbuf
  | cons x xs ih =>
      by_cases hx : x = d
      · subst hx
        rw [drain_cons_delim] at h
        cases hd : decode buf with
        | ok items =>
          rw [hd] at h
          exact ih (by simp) h
        | error e =>
          rw [hd] at h
          simp at h
      · rw [drain_cons_ne d decode hx] at h
        refine ih ?_ h
        simp [hbuf, Ne.symm hx]

/-- What a pass has read: frames that decode, and then the open frame or a
frame that fails. -/
theorem drain_segments {buf : List α} (hbuf : d ∉ buf) (xs : List α) (out : List β) :
    ∃ fs : List (List α), (∀ f ∈ fs, d ∉ f ∧ ∃ items, decode f = .ok items) ∧
      match drain d decode buf xs out with
      | (rest, .ok _) => d ∉ rest ∧ buf ++ xs = fs.flatMap (· ++ [d]) ++ rest
      | (rest, .error e) => ∃ bad, d ∉ bad ∧ decode bad = .error e ∧
          buf ++ xs = fs.flatMap (· ++ [d]) ++ (bad ++ d :: rest) := by
  induction xs generalizing buf out with
  | nil => exact ⟨[], by simp, hbuf, by simp⟩
  | cons x xs ih =>
      by_cases hx : x = d
      · subst hx
        rw [drain_cons_delim]
        cases hdecode : decode buf with
        | error e => exact ⟨[], by simp, buf, hbuf, hdecode, by simp⟩
        | ok items =>
          obtain ⟨fs, hfs, hpass⟩ := @ih [] List.not_mem_nil (out ++ items)
          refine ⟨buf :: fs, List.forall_mem_cons.mpr ⟨⟨hbuf, items, hdecode⟩, hfs⟩, ?_⟩
          dsimp only
          generalize drain x decode [] xs (out ++ items) = answer at hpass ⊢
          rcases answer with ⟨rest, e | more⟩
          · obtain ⟨bad, hfree, hbad, hxs⟩ := hpass
            rw [List.nil_append] at hxs
            exact ⟨bad, hfree, hbad, by simp [hxs]⟩
          · obtain ⟨hfree, hxs⟩ := hpass
            rw [List.nil_append] at hxs
            exact ⟨hfree, by simp [hxs]⟩
      · rw [drain_cons_ne d decode hx, List.append_cons buf x xs]
        exact @ih (buf ++ [x]) (by simp [hbuf, Ne.symm hx]) out

/-- The reads are one pass over their concatenation, as long as the buffer
starts without a delimiter.  On a failure only the results agree: the pass
over the concatenation also holds the reads that were never made. -/
theorem feedAll_eq_drain {buf : List α} (hbuf : d ∉ buf)
    (chunks : List (List α)) (out : List β) :
    (feedAll d decode buf chunks out).2 =
        (drain d decode buf chunks.flatten out).2 ∧
      ∀ rest out', drain d decode buf chunks.flatten out = (rest, .ok out') →
        feedAll d decode buf chunks out = (rest, .ok out') := by
  induction chunks generalizing buf out with
  | nil => simp [feedAll]
  | cons chunk chunks ih =>
      have hpass : drain d decode [] (buf ++ chunk) [] =
          drain d decode buf chunk [] := by
        rw [drain_free d decode hbuf, List.nil_append]
      rw [feedAll, hpass, List.flatten_cons, drain_append,
        drain_out d decode buf chunk out]
      cases hc : drain d decode buf chunk [] with
      | mk rest result =>
        cases result with
        | ok items => exact ih (drain_buffer_free d decode hbuf hc) (out ++ items)
        | error e => simp

/-- A second read goes on where the first one stopped. -/
theorem drain_resume {xs rest : List α} {items : List β}
    (h : drain d decode [] xs [] = (rest, .ok items)) (ys : List α) :
    drain d decode [] (xs ++ ys) [] =
      match drain d decode [] (rest ++ ys) [] with
      | (rest', .ok more) => (rest', .ok (items ++ more))
      | (rest', .error e) => (rest', .error e) := by
  have hfree := drain_buffer_free d decode List.not_mem_nil h
  rw [drain_append, h]
  dsimp only
  rw [drain_free d decode hfree, List.nil_append, drain_out]

/-- A decoder of one frame that gives one result at most: a pass has no more results
than the input has delimiters, and the rest is what is left of the input. -/
theorem drain_length (hone : ∀ frame items, decode frame = .ok items → items.length ≤ 1)
    {buf xs rest : List α} {out out' : List β}
    (h : drain d decode buf xs out = (rest, .ok out')) :
    out'.length + rest.length ≤ out.length + buf.length + xs.length := by
  induction xs generalizing buf out with
  | nil =>
      obtain ⟨rfl, rfl⟩ : buf = rest ∧ out = out' := by simpa using h
      simp
  | cons x xs ih =>
      rw [List.length_cons]
      by_cases hx : x = d
      · subst hx
        rw [drain_cons_delim] at h
        cases hd : decode buf with
        | ok items =>
          rw [hd] at h
          have hitems := hone buf items hd
          have hrest := ih h
          rw [List.length_append, List.length_nil] at hrest
          omega
        | error e =>
          rw [hd] at h
          simp at h
      · rw [drain_cons_ne d decode hx] at h
        have hrest := ih h
        rw [List.length_append, List.length_singleton] at hrest
        omega

end Drain

end CodeLib.Delimited
