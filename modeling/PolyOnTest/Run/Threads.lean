import PolyOnTest.Builtins.JoinedLines
import PolyOnTest.CodeLib.Interleave
import PolyOnTest.CodeLib.Resync
import PolyOnTest.Run.Identity

/-!
# Threads that report on one case

With the lock hooks each update of a flag and each call of the writer is one atomic
step.  A frame is one call of the writer, but a line takes two: the text and the line
feed.  Between the two, another thread may write.

`interleaved_iff` says when the host still reads an interleaving of what the threads
report: always in the binary output, and in the text output exactly when no line that is
an event stands on one line of the output with another line.  In one direction each line
of the output is read by itself.  In the other the number of events and then their
`weight` show that two lines became one.
-/

namespace PolyOnTest.Run

open CodeLib CodeLib.CMemory PolyOnTest.Builtins PolyOnTest.Harness PolyOnTest.Wire

/-- An atomic step of a thread: it sets `g_current_failed` or `g_current_skipped`, or it
appends to the output. -/
inductive Atom
  | setFailed
  | setSkipped
  | append (data : List UInt8)
  deriving DecidableEq

/-- The atomic steps of `pot_fail_at` and `pot_ignore`. -/
def atoms (mode : Mode) (g : Globals) : Call → List Atom
  | .failAt file line message =>
      .setFailed :: (writes mode g (.failAt file line message)).map .append
  | .ignore message => .setSkipped :: (writes mode g (.ignore message)).map .append
  | _ => []

/-- `pot_fail_at` or `pot_ignore`. -/
def reports : Call → Bool
  | .failAt .. => true
  | .ignore _ => true
  | _ => false

/-- What a step appends. -/
def Atom.data : Atom → List (List UInt8)
  | .append data => [data]
  | _ => []

/-- The output of a list of steps, one entry for each call of the writer. -/
def appended (steps : List Atom) : List (List UInt8) := steps.flatMap Atom.data

/-- In the text output no line that is an event stands on one line of the output with
another line. -/
def KeptApart (mode : Mode) (out : List (List UInt8)) : Prop :=
  mode = .text → ∀ group ∈ Delimited.frames [0x0A] out, 2 ≤ group.length →
    ∀ line ∈ group, hostDecode .text (line ++ [0x0A]) = .ok []

theorem appended_atoms (mode : Mode) (g : Globals) {c : Call} (hc : reports c = true) :
    (atoms mode g c).flatMap Atom.data = writes mode g c := by
  have hmap : ∀ ds : List (List UInt8), (ds.map Atom.append).flatMap Atom.data = ds := by
    intro ds
    induction ds with
    | nil => rfl
    | cons d ds ih => exact congrArg (d :: ·) ih
  cases c with
  | failAt file line message => exact hmap _
  | ignore message => exact hmap _
  | _ => cases hc

/-- The calls of the writer interleave as the steps do. -/
theorem interleave_appended {mode : Mode} {g : Globals} {threads : List (List Call)}
    (hcalls : ∀ t ∈ threads, ∀ c ∈ t, reports c = true) {steps : List Atom}
    (h : Interleave (threads.map fun t => t.flatMap (atoms mode g)) steps) :
    Interleave (threads.map fun t => t.flatMap (writes mode g)) (appended steps) := by
  have hmap := h.flatMap Atom.data
  have hthreads : (threads.map fun t => t.flatMap (atoms mode g)).map
      (fun xs => xs.flatMap Atom.data) = threads.map fun t => t.flatMap (writes mode g) := by
    rw [List.map_map]
    refine List.map_congr_left fun t ht => ?_
    show (t.flatMap (atoms mode g)).flatMap Atom.data = _
    rw [List.flatMap_assoc]
    exact List.flatMap_congr fun c hc => appended_atoms mode g (hcalls t ht c hc)
  rw [hthreads] at hmap
  exact hmap

/-! ## Lines -/

/-- A line of `pot_fail_at` or `pot_ignore`. -/
structure ReportLine (line : List UInt8) : Prop where
  free : 0x0A ∉ line
  key : ∃ rest, line = (CStr.lit "FAIL ").bytes ++ rest ∨
    line = (CStr.lit "IGNORE ").bytes ++ rest

/-- The key word of a line is read whatever stands in front of it. -/
theorem lossy_key {word : String} (hne : (CStr.lit word).bytes ≠ [])
    (hascii : Utf8.IsAscii (CStr.lit word).bytes) (htext : '\x00' ∉ word.toList)
    (front rest : List UInt8) :
    Utf8.lossy (front ++ ((CStr.lit word).bytes ++ rest)) =
      Utf8.lossy front ++ (word.toList ++ Utf8.lossy rest) := by
  obtain ⟨b, bytes, hword⟩ := List.exists_cons_of_ne_nil hne
  have hfirst : b.toNat < 0x80 := hascii b (by simp [hword])
  have hlit : (CStr.lit word).bytes.map Utf8.asciiChar = word.toList :=
    (Utf8.lossy_ascii hascii).symm.trans (lossy_lit htext)
  rw [← hlit, ← Utf8.lossy_ascii_append hascii, hword, List.cons_append,
    Utf8.lossy_append_ascii _ _ hfirst, Utf8.lossy_cons_ascii _ hfirst]

theorem lossy_failKey (front rest : List UInt8) :
    Utf8.lossy (front ++ ((CStr.lit "FAIL ").bytes ++ rest)) =
      Utf8.lossy front ++ ("FAIL ".toList ++ Utf8.lossy rest) :=
  lossy_key (by decide) (by decide) (by simp) front rest

theorem lossy_noteKey (front rest : List UInt8) :
    Utf8.lossy (front ++ ((CStr.lit "IGNORE ").bytes ++ rest)) =
      Utf8.lossy front ++ ("IGNORE ".toList ++ Utf8.lossy rest) :=
  lossy_key (by decide) (by decide) (by simp) front rest

theorem ReportLine.lossy_append {line : List UInt8} (h : ReportLine line)
    (front more : List UInt8) :
    ∃ next rest, IsReport next ∧
      Utf8.lossy (front ++ (line ++ more)) = Utf8.lossy front ++ (next ++ rest) := by
  obtain ⟨rest, hline | hline⟩ := h.key
  · refine ⟨"FAIL ".toList ++ [], Utf8.lossy (rest ++ more), .fail [], ?_⟩
    rw [hline, List.append_assoc, List.append_nil, lossy_failKey]
  · refine ⟨"IGNORE ".toList ++ [], Utf8.lossy (rest ++ more), .note [], ?_⟩
    rw [hline, List.append_assoc, List.append_nil, lossy_noteKey]

theorem ReportLine.isReport {line : List UInt8} (h : ReportLine line) :
    IsReport (Utf8.lossy line) := by
  obtain ⟨rest, hline | hline⟩ := h.key
  · have hkey := lossy_failKey [] rest
    rw [List.nil_append, Utf8.lossy_nil, List.nil_append] at hkey
    rw [hline, hkey]
    exact .fail _
  · have hkey := lossy_noteKey [] rest
    rw [List.nil_append, Utf8.lossy_nil, List.nil_append] at hkey
    rw [hline, hkey]
    exact .note _

/-- Lines that come to stand on one line of the output, when the first is no event. -/
theorem readText_group_silent {line next : List UInt8} (hline : ReportLine line)
    (hnext : ReportLine next) (more : List (List UInt8))
    (h : readText (Utf8.lossy line) = []) :
    readText (Utf8.lossy (line :: next :: more).flatten) = [] := by
  obtain ⟨key, rest, hkey, hlossy⟩ := hnext.lossy_append line more.flatten
  rw [List.flatten_cons, List.flatten_cons, hlossy]
  exact readText_silent hline.isReport hkey rest h

/-- Lines that come to stand on one line of the output, when the first is an event. -/
theorem readText_group_heavier {line next : List UInt8} (hline : ReportLine line)
    (hnext : ReportLine next) (more : List (List UInt8)) {e e' : Event}
    (h : e ∈ readText (Utf8.lossy line))
    (h' : e' ∈ readText (Utf8.lossy (line :: next :: more).flatten)) :
    weight e < weight e' := by
  obtain ⟨key, rest, hkey, hlossy⟩ := hnext.lossy_append line more.flatten
  rw [List.flatten_cons, List.flatten_cons, hlossy] at h'
  exact readText_heavier hline.isReport hkey rest h h'

/-- The lines of a thread. -/
def threadLines (g : Globals) (t : List Call) : List (List UInt8) :=
  t.flatMap fun c => (c.msgs g).map fun m => m.line.bytes

theorem threadLines_writes (g : Globals) (t : List Call) :
    t.flatMap (writes .text g) = (threadLines g t).flatMap fun line => [line, [0x0A]] := by
  rw [threadLines, List.flatMap_assoc]
  refine List.flatMap_congr fun c _ => ?_
  rw [writes, List.flatMap_map]
  rfl

/-- The lines of a thread begin with a key word. -/
theorem reportLine_of_msgs {g : Globals} {c : Call} {m : Msg} (hm : m ∈ c.msgs g)
    (hfree : 0x0A ∉ m.line.bytes) : ReportLine m.line.bytes := by
  have hfrom := fromCase_msgs hm
  refine ⟨hfree, ?_⟩
  cases m with
  | assertFail id file line message =>
    have hbuild : (Msg.assertFail id file line message).line.bytes =
        ((CStr.lit "FAIL ").bytes ++ lineText (caseIdFrags id ++ [litFrag " ", nameFrag file,
          litFrag ":", .i32 line, litFrag " ", .str (some message)])).take 319 :=
      (build_cstr (show 0 < 320 by decide) _ _).1
    have hword : (CStr.lit "FAIL ").bytes.length = 5 := by decide
    rw [List.take_append, hword, List.take_of_length_le (by omega)] at hbuild
    exact ⟨_, Or.inl hbuild⟩
  | ignored id message =>
    have hbuild : (Msg.ignored id message).line.bytes =
        ((CStr.lit "IGNORE ").bytes ++ lineText (caseIdFrags id ++ [litFrag " ",
          .str (some message)])).take 255 := (build_cstr (show 0 < 256 by decide) _ _).1
    have hword : (CStr.lit "IGNORE ").bytes.length = 7 := by decide
    rw [List.take_append, hword, List.take_of_length_le (by omega)] at hbuild
    exact ⟨_, Or.inr hbuild⟩
  | _ => exact hfrom.elim

/-! ## Lines of the output -/

/-- The events of one call of the writer by itself. -/
def ownEvents (piece : List UInt8) : List Event := readText (Utf8.lossy piece)

/-- The events of a line of the output. -/
def groupEvents (group : List (List UInt8)) : List Event :=
  readText (Utf8.lossy group.flatten)

theorem ownEvents_feed : ownEvents [0x0A] = [] := by decide

/-- The output is read line by line. -/
theorem hostDecode_groups {groups : List (List (List UInt8))}
    (h : ∀ group ∈ groups, ∀ line ∈ group, 0x0A ∉ line) :
    hostDecode .text (groups.flatMap fun group => group ++ [[0x0A]]).flatten =
      .ok (groups.flatMap groupEvents) := by
  induction groups with
  | nil => exact hostDecode_nil .text
  | cons group groups ih =>
      have hfree : 0x0A ∉ group.flatten := by
        intro hmem
        obtain ⟨line, hline, hb⟩ := List.mem_flatten.mp hmem
        exact h group (by simp) line hline hb
      have hrest := ih fun other hother => h other (by simp [hother])
      rw [List.flatMap_cons, List.flatten_append, List.flatten_append, List.flatten_singleton,
        List.flatMap_cons]
      exact hostDecode_cons (Or.inr ⟨group.flatten, rfl⟩) (hostDecode_line hfree) hrest

/-- The events of a thread by itself. -/
theorem hostDecode_thread {g : Globals} {t : List Call}
    (h : ∀ line ∈ threadLines g t, 0x0A ∉ line) :
    hostDecode .text (t.flatMap (writes .text g)).flatten =
      .ok ((t.flatMap (writes .text g)).flatMap ownEvents) := by
  have hgroups : t.flatMap (writes .text g) =
      ((threadLines g t).map fun line => [line]).flatMap fun group => group ++ [[0x0A]] := by
    rw [threadLines_writes, List.flatMap_map]
    rfl
  have hevents : ((threadLines g t).map fun line => [line]).flatMap groupEvents =
      (t.flatMap (writes .text g)).flatMap ownEvents := by
    rw [threadLines_writes, List.flatMap_assoc, List.flatMap_map]
    refine List.flatMap_congr fun line _ => ?_
    rw [List.flatMap_cons, List.flatMap_cons, ownEvents_feed, groupEvents, List.flatten_cons]
    simp [ownEvents]
  rw [← hevents, hgroups]
  refine hostDecode_groups fun group hgroup line hline => ?_
  obtain ⟨line', hline', heq⟩ := List.mem_map.mp hgroup
  rw [← heq, List.mem_singleton] at hline
  exact hline ▸ h line' hline'

section Groups

variable {groups : List (List (List UInt8))}

/-- A line of the output with at most one line of the harness, or with no line that is an
event, is read as its parts. -/
theorem groupEvents_eq {group : List (List UInt8)} (hlines : ∀ line ∈ group, ReportLine line)
    (hapart : 2 ≤ group.length → ∀ line ∈ group, ownEvents line = []) :
    groupEvents group = group.flatMap ownEvents := by
  match group with
  | [] => decide
  | [line] => simp [groupEvents, ownEvents]
  | line :: next :: more =>
    have hnone := hapart (by simp)
    have hsilent := readText_group_silent (hlines line (by simp)) (hlines next (by simp)) more
      (hnone line (by simp))
    rw [groupEvents, hsilent, List.flatMap_eq_nil_iff.mpr hnone]

/-- A line of the output has at most as many events as its parts. -/
theorem groupEvents_length_le {group : List (List UInt8)}
    (hlines : ∀ line ∈ group, ReportLine line) :
    (groupEvents group).length ≤ (group.flatMap ownEvents).length := by
  match group with
  | [] => decide
  | [line] => simp [groupEvents, ownEvents]
  | line :: next :: more =>
    by_cases hfirst : ownEvents line = []
    · have hsilent := readText_group_silent (hlines line (by simp)) (hlines next (by simp))
        more hfirst
      rw [groupEvents, hsilent]
      exact Nat.zero_le _
    · have hone := List.length_pos_of_ne_nil hfirst
      have hmost : (groupEvents (line :: next :: more)).length ≤ 1 := readText_length_le _
      rw [List.flatMap_cons, List.length_append]
      omega

/-- When no event is lost, the texts of the events only grow, and they do grow where
lines were joined. -/
theorem groupEvents_weight {group : List (List UInt8)}
    (hlines : ∀ line ∈ group, ReportLine line)
    (hsame : (groupEvents group).length = (group.flatMap ownEvents).length) :
    ((group.flatMap ownEvents).map weight).sum ≤ ((groupEvents group).map weight).sum ∧
      (2 ≤ group.length → group.flatMap ownEvents ≠ [] →
        ((group.flatMap ownEvents).map weight).sum <
          ((groupEvents group).map weight).sum) := by
  match group with
  | [] => exact ⟨Nat.le_refl _, fun h => absurd h (by decide)⟩
  | [line] =>
    refine ⟨by simp [groupEvents, ownEvents], fun h => absurd h (by simp)⟩
  | line :: next :: more =>
    by_cases hfirst : ownEvents line = []
    · have hsilent := readText_group_silent (hlines line (by simp)) (hlines next (by simp))
        more hfirst
      rw [groupEvents, hsilent, List.length_nil] at hsame
      have hnone := List.length_eq_zero_iff.mp hsame.symm
      rw [hnone]
      exact ⟨Nat.zero_le _, fun _ hne => absurd rfl hne⟩
    · have hone := List.length_pos_of_ne_nil hfirst
      have hmost : (groupEvents (line :: next :: more)).length ≤ 1 := readText_length_le _
      rw [List.flatMap_cons, List.length_append] at hsame
      obtain ⟨e, he⟩ := List.length_eq_one_iff.mp
        (show (ownEvents line).length = 1 by omega)
      obtain ⟨e', he'⟩ := List.length_eq_one_iff.mp
        (show (groupEvents (line :: next :: more)).length = 1 by omega)
      have hrest : (next :: more).flatMap ownEvents = [] :=
        List.length_eq_zero_iff.mp (by omega)
      have hheavier : weight e < weight e' :=
        readText_group_heavier (hlines line (by simp)) (hlines next (by simp)) more
          (show e ∈ ownEvents line by simp [he])
          (show e' ∈ groupEvents (line :: next :: more) by simp [he'])
      rw [List.flatMap_cons, hrest, he, he']
      simp only [List.append_nil, List.map_singleton, List.sum_singleton]
      exact ⟨Nat.le_of_lt hheavier, fun _ _ => hheavier⟩

theorem sum_flatMap {α β : Type} (f : α → List β) (w : β → Nat) (xs : List α) :
    ((xs.flatMap f).map w).sum = (xs.map fun x => ((f x).map w).sum).sum := by
  induction xs with
  | nil => rfl
  | cons x xs ih => simp [ih]

/-- Events that are a rearrangement of what the parts give come from lines of the output
without a second line next to an event. -/
theorem apart_of_perm (hlines : ∀ group ∈ groups, ∀ line ∈ group, ReportLine line)
    (hperm : (groups.flatMap groupEvents).Perm
      (groups.flatMap fun group => group.flatMap ownEvents)) :
    ∀ group ∈ groups, 2 ≤ group.length → ∀ line ∈ group, ownEvents line = [] := by
  -- first the number of events: no line of the output loses one
  have hcount : ∀ group ∈ groups,
      (groupEvents group).length = (group.flatMap ownEvents).length := by
    by_contra hdiffers
    push Not at hdiffers
    obtain ⟨bad, hbad, hne⟩ := hdiffers
    have hlt := List.sum_lt_sum (l := groups) (fun group => (groupEvents group).length)
      (fun group => (group.flatMap ownEvents).length)
      (fun group hgroup => groupEvents_length_le (hlines group hgroup))
      ⟨bad, hbad, Nat.lt_of_le_of_ne (groupEvents_length_le (hlines bad hbad)) hne⟩
    have hlen := hperm.length_eq
    rw [List.length_flatMap, List.length_flatMap] at hlen
    omega
  -- then their texts: no line of the output adds to one
  intro bad hbad hlong
  by_contra hevent
  push Not at hevent
  obtain ⟨line, hline, hne⟩ := hevent
  have hsome : bad.flatMap ownEvents ≠ [] := fun hnil =>
    hne (List.flatMap_eq_nil_iff.mp hnil line hline)
  have hlt := List.sum_lt_sum (l := groups)
    (fun group => ((group.flatMap ownEvents).map weight).sum)
    (fun group => ((groupEvents group).map weight).sum)
    (fun group hgroup =>
      (groupEvents_weight (hlines group hgroup) (hcount group hgroup)).1)
    ⟨bad, hbad, (groupEvents_weight (hlines bad hbad) (hcount bad hbad)).2 hlong hsome⟩
  have hsum := (hperm.map weight).sum_eq
  rw [sum_flatMap, sum_flatMap] at hsum
  omega

end Groups

/-! ## Runs -/

theorem eq_map_of_forall₂ {α β : Type} {R : α → β → Prop} {f : α → β} {xs : List α}
    {ys : List β} (h : List.Forall₂ R xs ys) (hf : ∀ x ∈ xs, ∀ y, R x y → y = f x) :
    ys = xs.map f := by
  induction h with
  | nil => rfl
  | cons hxy _ ih =>
      rw [List.map_cons, hf _ (by simp) _ hxy, ih fun x hx => hf x (by simp [hx])]

theorem exists_of_forall₂ {α β : Type} {R : α → β → Prop} {xs : List α} {ys : List β}
    (h : List.Forall₂ R xs ys) : ∀ x ∈ xs, ∃ y, R x y := by
  induction h with
  | nil => exact fun _ hx => absurd hx List.not_mem_nil
  | cons hxy _ ih =>
      intro x hx
      rcases List.mem_cons.mp hx with heq | hx
      · exact ⟨_, heq ▸ hxy⟩
      · exact ih x hx

/-- The text output of a run is lines of the output, and each of them is lines of the
threads. -/
theorem exists_groups {g : Globals} {threads : List (List Call)}
    (hlines : ∀ t ∈ threads, ∀ c ∈ t, ∀ m ∈ c.msgs g, 0x0A ∉ m.line.bytes)
    {out : List (List UInt8)}
    (h : Interleave (threads.map fun t => t.flatMap (writes .text g)) out) :
    ∃ groups : List (List (List UInt8)),
      (groups.flatMap fun group => group ++ [[0x0A]]) = out ∧
        Delimited.frames [0x0A] out = groups ∧
        ∀ group ∈ groups, ∀ line ∈ group, ReportLine line := by
  have hpiece : ∀ piece ∈ out, piece ≠ [0x0A] → ReportLine piece := by
    intro piece hpiece hne
    obtain ⟨pieces, hpieces, hmem⟩ := List.mem_flatten.mp (h.perm.mem_iff.mp hpiece)
    obtain ⟨t, ht, heq⟩ := List.mem_map.mp hpieces
    rw [← heq, List.mem_flatMap] at hmem
    obtain ⟨c, hc, hmem⟩ := hmem
    obtain ⟨m, hm, hmem⟩ := List.mem_flatMap.mp hmem
    rcases List.mem_cons.mp hmem with hline | hmem
    · rw [hline]
      exact reportLine_of_msgs hm (hlines t ht c hc m hm)
    · exact absurd (List.mem_singleton.mp hmem) hne
  have hlast : ∀ z, out.getLast? = some z → z = [0x0A] := by
    intro z hz
    obtain ⟨pieces, hpieces, hlast⟩ := h.getLast_mem hz
    obtain ⟨t, -, heq⟩ := List.mem_map.mp hpieces
    rw [← heq, threadLines_writes] at hlast
    rcases List.eq_nil_or_concat (threadLines g t) with hnil | ⟨front, line, hfront⟩
    · rw [hnil] at hlast
      cases hlast
    · rw [hfront] at hlast
      simpa using hlast.symm
  obtain ⟨groups, hgroups, hfree⟩ := Delimited.exists_frames [0x0A] hlast
  refine ⟨groups, hgroups, ?_, fun group hgroup line hline => ?_⟩
  · rw [← hgroups]
    exact Delimited.frames_flatMap [0x0A] hfree
  · refine hpiece line ?_ fun heq => hfree group hgroup (heq ▸ hline)
    rw [← hgroups, List.mem_flatMap]
    exact ⟨group, hgroup, by simp [hline]⟩

/-- The events of a thread that writes alone are those of its lines. -/
theorem hostDecode_own {g : Globals} {t : List Call}
    (hlines : ∀ c ∈ t, ∀ m ∈ c.msgs g, 0x0A ∉ m.line.bytes) {own : List Event}
    (h : hostDecode .text (t.flatMap (writes .text g)).flatten = .ok own) :
    own = (t.flatMap (writes .text g)).flatMap ownEvents := by
  have hthread : ∀ line ∈ threadLines g t, 0x0A ∉ line := by
    intro line hline
    obtain ⟨c, hc, hmem⟩ := List.mem_flatMap.mp hline
    obtain ⟨m, hm, heq⟩ := List.mem_map.mp hmem
    exact heq ▸ hlines c hc m hm
  rw [hostDecode_thread hthread] at h
  injection h with h
  exact h.symm

/-- No line with an event shares its line of the output. -/
theorem keptApart_text {out : List (List UInt8)} {groups : List (List (List UInt8))}
    (hframes : Delimited.frames [0x0A] out = groups)
    (hreports : ∀ group ∈ groups, ∀ line ∈ group, ReportLine line) :
    KeptApart .text out ↔
      ∀ group ∈ groups, 2 ≤ group.length → ∀ line ∈ group, ownEvents line = [] := by
  have hline : ∀ group ∈ groups, ∀ line ∈ group,
      (hostDecode .text (line ++ [0x0A]) = .ok [] ↔ ownEvents line = []) := by
    intro group hgroup line hline
    rw [hostDecode_line (hreports group hgroup line hline).free, Except.ok.injEq, ownEvents]
  unfold KeptApart
  rw [hframes]
  constructor
  · intro hkept group hgroup hlong line hmem
    exact (hline group hgroup line hmem).mp (hkept rfl group hgroup hlong line hmem)
  · intro hnone _ group hgroup hlong line hmem
    exact (hline group hgroup line hmem).mpr (hnone group hgroup hlong line hmem)

/-- A run with text output. -/
theorem interleaved_text {g : Globals} {threads : List (List Call)}
    (hlines : ∀ t ∈ threads, ∀ c ∈ t, ∀ m ∈ c.msgs g, 0x0A ∉ m.line.bytes)
    {out : List (List UInt8)}
    (h : Interleave (threads.map fun t => t.flatMap (writes .text g)) out)
    {owns : List (List Event)}
    (howns : List.Forall₂ (fun t own =>
      hostDecode .text (t.flatMap (writes .text g)).flatten = .ok own) threads owns) :
    (∃ events, hostDecode .text out.flatten = .ok events ∧ Interleave owns events) ↔
      KeptApart .text out := by
  obtain ⟨groups, hout, hframes, hreports⟩ := exists_groups hlines h
  have howns' : owns = threads.map fun t => (t.flatMap (writes .text g)).flatMap ownEvents :=
    eq_map_of_forall₂ howns fun t ht _ hown => hostDecode_own (hlines t ht) hown
  have hread : hostDecode .text out.flatten = .ok (groups.flatMap groupEvents) := by
    rw [← hout]
    exact hostDecode_groups fun group hgroup line hline =>
      (hreports group hgroup line hline).free
  have hparts : out.flatMap ownEvents =
      groups.flatMap fun group => group.flatMap ownEvents := by
    rw [← hout, List.flatMap_assoc]
    refine List.flatMap_congr fun group _ => ?_
    rw [List.flatMap_append, List.flatMap_singleton, ownEvents_feed, List.append_nil]
  have hwhole : Interleave owns (groups.flatMap fun group => group.flatMap ownEvents) := by
    have hmap := h.flatMap ownEvents
    rw [List.map_map, hparts] at hmap
    rw [howns']
    exact hmap
  rw [keptApart_text hframes hreports]
  constructor
  · intro hagree
    obtain ⟨events, hevents, hinterleave⟩ := hagree
    rw [hread] at hevents
    injection hevents with hevents
    subst hevents
    exact apart_of_perm hreports (hinterleave.perm.trans hwhole.perm.symm)
  · intro hnone
    have hsame : groups.flatMap groupEvents =
        groups.flatMap fun group => group.flatMap ownEvents :=
      List.flatMap_congr fun group hgroup =>
        groupEvents_eq (hreports group hgroup) (hnone group hgroup)
    exact ⟨_, hread, hsame ▸ hwhole⟩

/-- A run with binary output: a frame is one call of the writer. -/
theorem interleaved_binary {g : Globals} {threads : List (List Call)}
    {out : List (List UInt8)}
    (h : Interleave (threads.map fun t => t.flatMap (writes .binary g)) out)
    {owns : List (List Event)}
    (howns : List.Forall₂ (fun t own =>
      hostDecode .binary (t.flatMap (writes .binary g)).flatten = .ok own) threads owns) :
    ∃ events, hostDecode .binary out.flatten = .ok events ∧ Interleave owns events := by
  have hthread : ∀ t : List Call, ∀ piece ∈ t.flatMap (writes .binary g),
      Whole .binary piece := by
    intro t piece hpiece
    obtain ⟨c, -, hmem⟩ := List.mem_flatMap.mp hpiece
    obtain ⟨m, -, hmem⟩ := List.mem_flatMap.mp hmem
    exact whole_emitBinary m piece hmem
  have hout : ∀ piece ∈ out, Whole .binary piece ∧ (hostDecode .binary piece).isOk = true := by
    intro piece hpiece
    obtain ⟨pieces, hpieces, hmem⟩ := List.mem_flatten.mp (h.perm.mem_iff.mp hpiece)
    obtain ⟨t, ht, heq⟩ := List.mem_map.mp hpieces
    obtain ⟨own, hown⟩ := exists_of_forall₂ howns t ht
    subst heq
    exact ⟨hthread t piece hmem,
      ((hostDecode_flatten (hthread t) own).mp hown).1 piece hmem⟩
  have howns' : owns = threads.map fun t => (t.flatMap (writes .binary g)).flatMap
      fun piece => Delimited.gives (hostDecode .binary piece) :=
    eq_map_of_forall₂ howns fun t _ own hown =>
      ((hostDecode_flatten (hthread t) own).mp hown).2.symm
  have hmap := h.flatMap fun piece => Delimited.gives (hostDecode .binary piece)
  rw [List.map_map] at hmap
  refine ⟨_, (hostDecode_flatten (fun piece hpiece => (hout piece hpiece).1) _).mpr
    ⟨fun piece hpiece => (hout piece hpiece).2, rfl⟩, ?_⟩
  rw [howns']
  exact hmap

/-- The host reads an interleaving of what the threads report exactly when no event of
the text output shares its line. -/
theorem interleaved_iff {mode : Mode} {g : Globals} {threads : List (List Call)}
    (hcalls : ∀ t ∈ threads, ∀ c ∈ t, reports c = true)
    (hlines : mode = .text →
      ∀ t ∈ threads, ∀ c ∈ t, ∀ m ∈ c.msgs g, 0x0A ∉ m.line.bytes)
    {steps : List Atom}
    (hsteps : Interleave (threads.map fun t => t.flatMap (atoms mode g)) steps)
    {owns : List (List Event)}
    (howns : List.Forall₂ (fun t own =>
      hostDecode mode (t.flatMap (writes mode g)).flatten = .ok own) threads owns) :
    (∃ events, hostDecode mode (appended steps).flatten = .ok events ∧
      Interleave owns events) ↔ KeptApart mode (appended steps) := by
  have hout := interleave_appended hcalls hsteps
  cases mode with
  | text => exact interleaved_text (hlines rfl) hout howns
  | binary =>
    constructor
    · exact fun _ hmode => absurd hmode (by decide)
    · exact fun _ => interleaved_binary hout howns

/-- The report of one of two threads. -/
def failed (message : String) : Call :=
  .failAt (some (CStr.lit "a.c")) 7 (some (CStr.lit message))

/-- What one of two threads writes. -/
def failedLine (message : String) : List UInt8 :=
  ((writes .text inMath (failed message)).headD [])

/-- The steps of two threads, one behind the other. -/
def stepsApart : List Atom :=
  [.setFailed, .setFailed, .append (failedLine "x"), .append [0x0A],
    .append (failedLine "y"), .append [0x0A]]

/-- The second thread writes its line between the line and the line feed of the first. -/
def stepsTogether : List Atom :=
  [.setFailed, .setFailed, .append (failedLine "x"), .append (failedLine "y"),
    .append [0x0A], .append [0x0A]]

/-- The event of one of the two threads. -/
def failedEvent (message : String) : Event :=
  .assertFail "Math".toList "ops.add".toList "a.c:7".toList 0 message.toList

theorem failed_atoms (message : String) :
    [failed message].flatMap (atoms .text inMath) =
      [.setFailed, .append (failedLine message), .append [0x0A]] := rfl

theorem stepsApart_interleave :
    Interleave ([[failed "x"], [failed "y"]].map fun t => t.flatMap (atoms .text inMath))
      stepsApart := by
  rw [List.map_cons, List.map_singleton, failed_atoms, failed_atoms]
  unfold stepsApart
  generalize failedLine "x" = x
  generalize failedLine "y" = y
  exact .first (.second (.first (.first (.second (.second (.done (by simp)))))))

theorem stepsTogether_interleave :
    Interleave ([[failed "x"], [failed "y"]].map fun t => t.flatMap (atoms .text inMath))
      stepsTogether := by
  rw [List.map_cons, List.map_singleton, failed_atoms, failed_atoms]
  unfold stepsTogether
  generalize failedLine "x" = x
  generalize failedLine "y" = y
  exact .first (.second (.first (.second (.first (.second (.done (by simp)))))))

theorem hostDecode_failed :
    hostDecode .text ([failed "x"].flatMap (writes .text inMath)).flatten =
        .ok [failedEvent "x"] ∧
      hostDecode .text ([failed "y"].flatMap (writes .text inMath)).flatten =
        .ok [failedEvent "y"] := by
  constructor <;> decide +kernel

/-- Two threads whose lines stay apart. -/
theorem interleaved_iff_apart :
    (∃ events, hostDecode .text (appended stepsApart).flatten = .ok events ∧
      Interleave [[failedEvent "x"], [failedEvent "y"]] events) ↔
        KeptApart .text (appended stepsApart) := by
  refine interleaved_iff (g := inMath) (by decide) (fun _ => ?_) stepsApart_interleave
    (.cons hostDecode_failed.1 (.cons hostDecode_failed.2 .nil))
  simp only [List.forall_mem_cons]
  decide +kernel

/-- Two lines become one, and the second event is lost. -/
theorem stepsTogether_lost :
    Interleave ([[failed "x"], [failed "y"]].map fun t => t.flatMap (atoms .text inMath))
        stepsTogether ∧
      hostDecode .text ([failed "x"].flatMap (writes .text inMath)).flatten =
        .ok [failedEvent "x"] ∧
      hostDecode .text ([failed "y"].flatMap (writes .text inMath)).flatten =
        .ok [failedEvent "y"] ∧
      hostDecode .text (appended stepsTogether).flatten =
        .ok [failedEvent "xFAIL Math.ops.add a.c:7 y"] :=
  ⟨stepsTogether_interleave, hostDecode_failed.1, hostDecode_failed.2, by decide +kernel⟩

end PolyOnTest.Run
