import Mathlib.Data.List.DropRight
import Mathlib.Data.List.TakeWhile
import InterCore.Switches

/-!
# What a text says about the switches

Line feeds separate the lines of a text, and a line either assigns a value to one switch or says
nothing. `Assigns` is the rule for a line, with nothing to run: it names the parts that the line
falls into. `Leaves` is the rule for the lines together: a switch has the value of the last line
that assigns it one, and its default if there is none. A wrong value is no assignment, so it takes
nothing back.

The rest follows from these two. Blanks at the end of a line are ignored, carriage returns among
them, and so is everything after a `#`; and assignments to different switches do not depend on each
other.

## Main definitions

* `Switches.Stripped`, `Switches.Uncommented`: a text without the blanks at its ends, a line without
  its comment.
* `Switches.Assigns`: a line assigns a value to a switch.
* `Switches.Leaves`: the value that lines leave a switch.
* `Switches.Governed`: the settings of a text are those that its lines leave, and what makes no
  difference to them.

## Main results

* `Switches.assignment?_eq_some_iff`: reading a line finds what it assigns.
* `Switches.get_foldl_apply_iff`: reading lines finds what they leave.
* `Switches.lines_intercalate`, `Switches.intercalate_lines`: texts and lists of lines.
* `Switches.get_ofBytes_replace`: what takes the place of some lines of a text.
* `Switches.assignments_govern`: the settings of every text.
-/

namespace InterCore

namespace Switches

variable {k k' : Key} {v v' : Bool} {b : UInt8}
  {line content before after blanks text core : List UInt8} {ls ls' : List (List UInt8)}

/-! ### Blanks at the ends -/

/-- What is left of a text without the blanks at its two ends. -/
structure Stripped (text core : List UInt8) : Prop where
  parts : ∃ l r, text = l ++ core ++ r ∧ (∀ b ∈ l, isBlank b = true) ∧ ∀ b ∈ r, isBlank b = true
  head : ∀ b ∈ core.head?, isBlank b = false
  last : ∀ b ∈ core.getLast?, isBlank b = false

theorem trim_eq (text : List UInt8) :
    trim text = (text.dropWhile isBlank).rdropWhile isBlank := rfl

theorem trim_append_left (h : ∀ b ∈ blanks, isBlank b = true) (text : List UInt8) :
    trim (blanks ++ text) = trim text := by
  rw [trim_eq, trim_eq, List.dropWhile_append_of_pos h]

theorem trim_append_right (h : ∀ b ∈ blanks, isBlank b = true) (text : List UInt8) :
    trim (text ++ blanks) = trim text := by
  have hright : ∀ l : List UInt8, (l ++ blanks).rdropWhile isBlank = l.rdropWhile isBlank := by
    intro l
    rw [List.rdropWhile, List.rdropWhile, List.reverse_append, List.dropWhile_append_of_pos]
    simpa using h
  rw [trim_eq, trim_eq, List.dropWhile_append]
  split
  · next hempty =>
    rw [List.dropWhile_eq_nil_iff.mpr h, List.isEmpty_iff.mp hempty]
  · exact hright _

/-- A text with no blank at either end stays as it is. -/
theorem trim_eq_self (hhead : ∀ b ∈ text.head?, isBlank b = false)
    (hlast : ∀ b ∈ text.getLast?, isBlank b = false) : trim text = text := by
  have hleft : text.dropWhile isBlank = text := by
    cases text with
    | nil => rfl
    | cons b text => rw [List.dropWhile_cons_of_neg (by simpa using hhead)]
  rw [trim_eq, hleft, List.rdropWhile_eq_self_iff]
  intro hne
  simpa using hlast _ (List.getLast?_eq_some_getLast hne)

/-- What a trimmed text starts with is what the text starts with after its blanks. -/
theorem isBlank_of_head?_trim (h : b ∈ (trim text).head?) : isBlank b = false := by
  obtain ⟨rest, hrest⟩ : trim text <+: text.dropWhile isBlank := List.rdropWhile_prefix isBlank _
  have hhead : (text.dropWhile isBlank).head? = some b := by
    rw [← hrest, List.head?_append, Option.mem_def.mp h, Option.some_or]
  have hne : text.dropWhile isBlank ≠ [] := by
    rintro hnil
    simp [hnil] at hhead
  rw [List.head?_eq_some_head hne, Option.some.injEq] at hhead
  rw [← hhead]
  exact List.head_dropWhile_not isBlank hne

theorem isBlank_of_getLast?_trim (h : b ∈ (trim text).getLast?) : isBlank b = false := by
  have hne : trim text ≠ [] := by
    rintro hnil
    simp [hnil] at h
  rw [List.getLast?_eq_some_getLast hne, Option.mem_some_iff] at h
  rw [← h]
  exact Bool.eq_false_iff.mpr (List.rdropWhile_last_not isBlank (text.dropWhile isBlank) hne)

theorem stripped_trim (text : List UInt8) : Stripped text (trim text) := by
  refine ⟨⟨text.takeWhile isBlank, (text.dropWhile isBlank).rtakeWhile isBlank, ?_, ?_, ?_⟩,
    fun _ => isBlank_of_head?_trim, fun _ => isBlank_of_getLast?_trim⟩
  · rw [trim_eq, List.append_assoc, List.rdropWhile_append_rtakeWhile,
      List.takeWhile_append_dropWhile]
  · intro b hb
    exact List.mem_takeWhile_imp hb
  · intro b hb
    exact List.mem_rtakeWhile_imp hb

/-- **Trimming strips.** -/
theorem stripped_iff : Stripped text core ↔ trim text = core := by
  constructor
  · rintro ⟨⟨l, r, rfl, hl, hr⟩, hhead, hlast⟩
    rw [trim_append_right hr, trim_append_left hl, trim_eq_self hhead hlast]
  · rintro rfl
    exact stripped_trim text

/-! ### One line -/

/-- A line up to its first `#`. -/
inductive Uncommented : List UInt8 → List UInt8 → Prop
  | whole {line : List UInt8} (h : 0x23 ∉ line) : Uncommented line line
  | cut {content : List UInt8} (h : 0x23 ∉ content) (comment : List UInt8) :
      Uncommented (content ++ 0x23 :: comment) content

/-- The words that stand for a value. -/
def words : Bool → List (List UInt8)
  | true => onWords
  | false => offWords

/-- A line assigns a value to a switch. Without its comment it has an equals sign; before the first
one stands the name of the switch, and after it a word for the value, with blanks around either. -/
def Assigns (line : List UInt8) (k : Key) (v : Bool) : Prop :=
  ∃ before after, Uncommented line (before ++ 0x3D :: after) ∧ 0x3D ∉ before ∧
    Stripped before (ascii k.name) ∧ ∃ word ∈ words v, Stripped after word

theorem takeWhile_of_not_mem (h : b ∉ line) : line.takeWhile (· ≠ b) = line := by
  rw [List.takeWhile_eq_self_iff]
  rintro c hc
  simpa using ne_of_mem_of_not_mem hc h

theorem takeWhile_append_cons (h : b ∉ before) (after : List UInt8) :
    (before ++ b :: after).takeWhile (· ≠ b) = before := by
  rw [List.takeWhile_append_of_pos fun c hc => by simpa using ne_of_mem_of_not_mem hc h]
  simp

theorem dropWhile_append_cons (h : b ∉ before) (after : List UInt8) :
    (before ++ b :: after).dropWhile (· ≠ b) = b :: after := by
  rw [List.dropWhile_append_of_pos fun c hc => by simpa using ne_of_mem_of_not_mem hc h]
  simp

theorem uncommented_iff : Uncommented line content ↔ line.takeWhile (· ≠ 0x23) = content := by
  constructor
  · rintro (h | ⟨h, comment⟩)
    · exact takeWhile_of_not_mem h
    · exact takeWhile_append_cons h comment
  · rintro rfl
    by_cases h : 0x23 ∈ line
    · obtain ⟨content, comment, rfl, hcontent⟩ := List.eq_append_cons_of_mem h
      rw [takeWhile_append_cons hcontent]
      exact .cut hcontent comment
    · rw [takeWhile_of_not_mem h]
      exact .whole h

theorem value?_eq_some_iff {word : List UInt8} : value? word = some v ↔ word ∈ words v := by
  have hdisjoint : ∀ w ∈ offWords, w ∉ onWords := by decide
  rw [value?]
  cases v with
  | true => split <;> simp_all [words]
  | false =>
    constructor
    · intro h
      split at h
      · simp at h
      · split at h
        · assumption
        · simp at h
    · intro h
      rw [if_neg (hdisjoint word h), if_pos (show word ∈ offWords from h)]

theorem key?_eq_some_iff {word : List UInt8} : key? word = some k ↔ word = ascii k.name := by
  constructor
  · intro h
    have hname := List.find?_some h
    exact (of_decide_eq_true hname).symm
  · rintro rfl
    cases k <;> decide

theorem assignment?_of_not_mem (h : 0x3D ∉ line.takeWhile (· ≠ 0x23)) :
    assignment? line = none := by
  have hnil : (line.takeWhile (· ≠ 0x23)).dropWhile (· ≠ 0x3D) = [] := by
    rw [List.dropWhile_eq_nil_iff]
    rintro c hc
    simpa using ne_of_mem_of_not_mem hc h
  simp only [assignment?, hnil]

theorem assignment?_of_parts (hline : line.takeWhile (· ≠ 0x23) = before ++ 0x3D :: after)
    (h : 0x3D ∉ before) :
    assignment? line =
      (value? (trim after)).bind fun v => (key? (trim before)).bind fun k => some (k, v) := by
  simp only [assignment?, hline, dropWhile_append_cons h, takeWhile_append_cons h]
  rfl

/-- **Reading a line finds what it assigns.** -/
theorem assignment?_eq_some_iff : assignment? line = some (k, v) ↔ Assigns line k v := by
  constructor
  · intro h
    by_cases hmem : 0x3D ∈ line.takeWhile (· ≠ 0x23)
    · obtain ⟨before, after, hline, hbefore⟩ := List.eq_append_cons_of_mem hmem
      rw [assignment?_of_parts hline hbefore] at h
      obtain ⟨v', hv, hrest⟩ := Option.bind_eq_some_iff.mp h
      obtain ⟨k', hk, heq⟩ := Option.bind_eq_some_iff.mp hrest
      obtain ⟨rfl, rfl⟩ := Prod.mk.inj (Option.some.inj heq)
      exact ⟨before, after, uncommented_iff.mpr hline, hbefore,
        stripped_iff.mpr (key?_eq_some_iff.mp hk), trim after, value?_eq_some_iff.mp hv,
        stripped_trim after⟩
    · rw [assignment?_of_not_mem hmem] at h
      cases h
  · rintro ⟨before, after, hline, hbefore, hname, word, hword, hvalue⟩
    rw [assignment?_of_parts (uncommented_iff.mp hline) hbefore, stripped_iff.mp hvalue,
      value?_eq_some_iff.mpr hword, stripped_iff.mp hname, key?_eq_some_iff.mpr rfl]
    rfl

instance (line : List UInt8) (k : Key) (v : Bool) : Decidable (Assigns line k v) :=
  decidable_of_iff _ assignment?_eq_some_iff

example : ¬ Assigns (ascii "log_events # = on") .logEvents true := by decide

/-- A comment at the end of a line says nothing. -/
theorem assignment?_append_comment (line comment : List UInt8) :
    assignment? (line ++ 0x23 :: comment) = assignment? line := by
  have hcontent : (line ++ 0x23 :: comment).takeWhile (· ≠ 0x23) = line.takeWhile (· ≠ 0x23) := by
    induction line with
    | nil => simp
    | cons b line ih => rw [List.cons_append, List.takeWhile_cons, List.takeWhile_cons, ih]
  simp only [assignment?, hcontent]

theorem not_mem_of_blank (h : ∀ b ∈ blanks, isBlank b = true) (hb : isBlank b = false) :
    b ∉ blanks := by
  intro hmem
  rw [h b hmem] at hb
  cases hb

/-- Blanks at the end of a line say nothing, whether they follow a value or a comment. -/
theorem assignment?_append_blanks (h : ∀ b ∈ blanks, isBlank b = true) (line : List UInt8) :
    assignment? (line ++ blanks) = assignment? line := by
  by_cases hcomment : 0x23 ∈ line
  · obtain ⟨content, comment, rfl, hcontent⟩ := List.eq_append_cons_of_mem hcomment
    rw [List.append_assoc, List.cons_append, assignment?_append_comment,
      assignment?_append_comment]
  have hline := takeWhile_of_not_mem hcomment
  have hblanks : (line ++ blanks).takeWhile (· ≠ 0x23) = line ++ blanks :=
    takeWhile_of_not_mem (List.not_mem_append hcomment (not_mem_of_blank h rfl))
  by_cases hequals : 0x3D ∈ line
  · obtain ⟨before, after, rfl, hbefore⟩ := List.eq_append_cons_of_mem hequals
    rw [List.append_assoc, List.cons_append] at hblanks ⊢
    rw [assignment?_of_parts hline hbefore, assignment?_of_parts hblanks hbefore,
      trim_append_right h]
  · have hnone : 0x3D ∉ line ++ blanks :=
      List.not_mem_append hequals (not_mem_of_blank h rfl)
    rw [← hline] at hequals
    rw [← hblanks] at hnone
    rw [assignment?_of_not_mem hequals, assignment?_of_not_mem hnone]

/-! ### Lines after one another -/

theorem apply_of_assigns (h : Assigns line k v) (s : Switches) : s.apply line = s.set k v := by
  rw [apply, assignment?_eq_some_iff.mpr h]

/-- What a line does is told by what it assigns. -/
theorem apply_congr (h : assignment? line = assignment? content) (s : Switches) :
    s.apply line = s.apply content := by
  rw [apply, apply, h]

theorem get_apply (h : Assigns line k v) (s : Switches) : (s.apply line).get k = v := by
  rw [apply_of_assigns h, get_set, if_pos rfl]

theorem get_apply_of_not_assigns (h : ∀ v, ¬ Assigns line k v) (s : Switches) :
    (s.apply line).get k = s.get k := by
  rw [apply]
  split
  · next k' v' hread =>
    rw [get_set, if_neg]
    rintro rfl
    exact h v' (assignment?_eq_some_iff.mp hread)
  · rfl

/-- Lines that assign a switch nothing leave it alone. -/
theorem get_foldl_apply_of_not_assigns (h : ∀ line ∈ ls, ∀ v, ¬ Assigns line k v) (s : Switches) :
    (ls.foldl apply s).get k = s.get k := by
  induction ls generalizing s with
  | nil => rfl
  | cons line ls ih =>
    rw [List.foldl_cons, ih fun l hl => h l (List.mem_cons_of_mem line hl),
      get_apply_of_not_assigns (h line List.mem_cons_self)]

/-- The value that lines leave a switch. -/
inductive Leaves (k : Key) : List (List UInt8) → Bool → Prop
  /-- The last line that assigns it one decides. -/
  | last {before after : List (List UInt8)} {line : List UInt8} {v : Bool}
      (h : Assigns line k v) (hafter : ∀ l ∈ after, ∀ v', ¬ Assigns l k v') :
      Leaves k (before ++ line :: after) v
  /-- If none does, it keeps its default. -/
  | default {ls : List (List UInt8)} (h : ∀ l ∈ ls, ∀ v, ¬ Assigns l k v) :
      Leaves k ls (({} : Switches).get k)

theorem leaves_foldl_apply (k : Key) (ls : List (List UInt8)) :
    Leaves k ls ((ls.foldl apply {}).get k) := by
  induction ls using List.reverseRecOn with
  | nil => exact .default fun l hl => absurd hl List.not_mem_nil
  | append_singleton ls line ih =>
    rw [List.foldl_append, List.foldl_cons, List.foldl_nil]
    by_cases h : ∃ v, Assigns line k v
    · obtain ⟨v, h⟩ := h
      rw [get_apply h]
      exact .last h fun l hl => absurd hl List.not_mem_nil
    · have hnot : ∀ l ∈ [line], ∀ v, ¬ Assigns l k v := by
        rintro l hl v hv
        rw [List.mem_singleton.mp hl] at hv
        exact h ⟨v, hv⟩
      rw [get_apply_of_not_assigns (not_exists.mp h)]
      generalize (ls.foldl apply {}).get k = v at ih
      cases ih with
      | last h hafter =>
        rw [List.append_assoc, List.cons_append]
        exact .last h (List.forall_mem_append.mpr ⟨hafter, hnot⟩)
      | default h => exact .default (List.forall_mem_append.mpr ⟨h, hnot⟩)

/-- **Reading lines finds what they leave.** -/
theorem get_foldl_apply_iff : (ls.foldl apply {}).get k = v ↔ Leaves k ls v := by
  constructor
  · rintro rfl
    exact leaves_foldl_apply k ls
  · rintro (⟨h, hafter⟩ | h)
    · rw [List.foldl_append, List.foldl_cons, get_foldl_apply_of_not_assigns hafter, get_apply h]
    · exact get_foldl_apply_of_not_assigns h {}

/-- What lines make of a switch depends on no other switch. -/
theorem get_foldl_apply_congr {s s' : Switches} (h : s.get k = s'.get k)
    (ls : List (List UInt8)) : (ls.foldl apply s).get k = (ls.foldl apply s').get k := by
  induction ls generalizing s s' with
  | nil => exact h
  | cons line ls ih =>
    refine ih ?_
    rw [apply, apply]
    split
    · rw [get_set, get_set, h]
    · exact h

/-- Settings are the same if every switch is. -/
theorem ext_get {s s' : Switches} (h : ∀ k, s.get k = s'.get k) : s = s' := by
  obtain ⟨_, _, _⟩ := s
  obtain ⟨_, _, _⟩ := s'
  exact congr (congr (congrArg Switches.mk (h .systemEvents)) (h .traces)) (h .logEvents)

/-- Assignments to different switches do not depend on each other. -/
theorem apply_comm {line' : List UInt8} (h : Assigns line k v) (h' : Assigns line' k' v')
    (hne : k ≠ k') (s : Switches) : (s.apply line).apply line' = (s.apply line').apply line := by
  refine ext_get fun i => ?_
  rw [apply_of_assigns h, apply_of_assigns h', apply_of_assigns h', apply_of_assigns h]
  simp only [get_set]
  split
  · next hi' => rw [if_neg (hi' ▸ hne)]
  · rfl

/-! ### Texts -/

theorem lines_eq_splitOn (bytes : List UInt8) : lines bytes = bytes.splitOn 0x0A := by
  induction bytes with
  | nil => rfl
  | cons b bytes ih =>
    rw [lines, List.foldr_cons, ← lines, ih, List.splitOn_cons_eq_if_modifyHead]
    obtain ⟨l, ls, hl⟩ := List.exists_cons_of_ne_nil (List.splitOn_ne_nil 0x0A bytes)
    rw [hl, consLine]
    simp only [beq_iff_eq, List.modifyHead_cons]

theorem lines_ne_nil (bytes : List UInt8) : lines bytes ≠ [] := by
  rw [lines_eq_splitOn]
  exact List.splitOn_ne_nil _ _

/-- Line feeds separate the lines of a text. -/
theorem intercalate_lines (bytes : List UInt8) : [0x0A].intercalate (lines bytes) = bytes := by
  rw [lines_eq_splitOn, List.intercalate_splitOn]

/-- Lines that line feeds separate are the lines of a text. -/
theorem lines_intercalate (hne : ls ≠ []) (h : ∀ line ∈ ls, 0x0A ∉ line) :
    lines ([0x0A].intercalate ls) = ls := by
  rw [lines_eq_splitOn, List.splitOn_intercalate 0x0A h hne]

theorem lines_cons_lineFeed (bytes : List UInt8) : lines (0x0A :: bytes) = [] :: lines bytes := by
  obtain ⟨l, ls, hl⟩ := List.exists_cons_of_ne_nil (lines_ne_nil bytes)
  rw [lines, List.foldr_cons, ← lines, hl]
  rfl

theorem lines_cons_of_ne {bytes l : List UInt8} (hb : b ≠ 0x0A) (hl : lines bytes = l :: ls) :
    lines (b :: bytes) = (b :: l) :: ls := by
  rw [lines, List.foldr_cons, ← lines, hl, consLine, if_neg hb]

theorem not_mem_of_mem_lines {bytes : List UInt8} (h : line ∈ lines bytes) : 0x0A ∉ line := by
  induction bytes generalizing line with
  | nil =>
    rw [List.mem_singleton.mp h]
    exact List.not_mem_nil
  | cons b bytes ih =>
    by_cases hb : b = 0x0A
    · rw [hb, lines_cons_lineFeed] at h
      rcases List.mem_cons.mp h with rfl | h
      · exact List.not_mem_nil
      · exact ih h
    · obtain ⟨l, ls, hl⟩ := List.exists_cons_of_ne_nil (lines_ne_nil bytes)
      rw [lines_cons_of_ne hb hl] at h
      rw [hl] at ih
      rcases List.mem_cons.mp h with rfl | h
      · exact List.not_mem_cons_of_ne_of_not_mem (Ne.symm hb) (ih List.mem_cons_self)
      · exact ih (List.mem_cons_of_mem l h)

/-- The settings of lines that line feeds separate. -/
theorem ofBytes_intercalate (h : ∀ line ∈ ls, 0x0A ∉ line) :
    ofBytes ([0x0A].intercalate ls) = ls.foldl apply {} := by
  by_cases hne : ls = []
  · rw [hne]
    rfl
  · rw [ofBytes, lines_intercalate hne h]

/-- Some lines of a text may give way to others that make the same of a switch. -/
theorem get_ofBytes_replace {bytes : List UInt8} {before after : List (List UInt8)}
    (old new : List (List UInt8)) (hlines : lines bytes = before ++ (old ++ after))
    (hfeed : ∀ line ∈ new, 0x0A ∉ line)
    (hsame : ∀ s : Switches, (new.foldl apply s).get k = (old.foldl apply s).get k) :
    (ofBytes ([0x0A].intercalate (before ++ (new ++ after)))).get k = (ofBytes bytes).get k := by
  have hbytes : ∀ line ∈ before ++ (old ++ after), 0x0A ∉ line :=
    hlines ▸ fun _ h => not_mem_of_mem_lines h
  obtain ⟨hbefore, hrest⟩ := List.forall_mem_append.mp hbytes
  have hafter := (List.forall_mem_append.mp hrest).2
  rw [ofBytes_intercalate
    (List.forall_mem_append.mpr ⟨hbefore, List.forall_mem_append.mpr ⟨hfeed, hafter⟩⟩),
    ofBytes, hlines]
  simp only [List.foldl_append]
  exact get_foldl_apply_congr (hsame _) after

/-- A text with a carriage return in front of every line feed. -/
def withReturns (bytes : List UInt8) : List UInt8 :=
  bytes.flatMap fun b => if b = 0x0A then [0x0D, 0x0A] else [b]

/-- Its lines are those of the text, except that they may end with a carriage return. -/
theorem lines_withReturns (bytes : List UInt8) :
    List.Forall₂ (fun l l' => l' = l ∨ l' = l ++ [0x0D]) (lines bytes)
      (lines (withReturns bytes)) := by
  induction bytes with
  | nil => exact .cons (.inl rfl) .nil
  | cons b bytes ih =>
    rw [withReturns, List.flatMap_cons, ← withReturns]
    by_cases hb : b = 0x0A
    · have hlines : lines (0x0D :: 0x0A :: withReturns bytes) =
          [0x0D] :: lines (withReturns bytes) :=
        lines_cons_of_ne (by decide) (lines_cons_lineFeed _)
      rw [hb, lines_cons_lineFeed, if_pos rfl]
      exact hlines ▸ .cons (.inr rfl) ih
    · rw [if_neg hb, List.singleton_append]
      obtain ⟨l, ls, hl⟩ := List.exists_cons_of_ne_nil (lines_ne_nil bytes)
      obtain ⟨l', ls', hl'⟩ := List.exists_cons_of_ne_nil (lines_ne_nil (withReturns bytes))
      rw [hl, hl'] at ih
      rw [lines_cons_of_ne hb hl, lines_cons_of_ne hb hl']
      obtain ⟨hend, hrest⟩ := List.forall₂_cons.mp ih
      refine .cons ?_ hrest
      rcases hend with rfl | rfl
      · exact .inl rfl
      · exact .inr rfl

/-- Carriage returns at the ends of lines say nothing. -/
theorem foldl_apply_of_returns
    (h : List.Forall₂ (fun l l' => l' = l ∨ l' = l ++ [0x0D]) ls ls') (s : Switches) :
    ls'.foldl apply s = ls.foldl apply s := by
  induction h generalizing s with
  | nil => rfl
  | cons hend _ ih =>
    rw [List.foldl_cons, List.foldl_cons, ih]
    rcases hend with rfl | rfl
    · rfl
    · rw [apply_congr (assignment?_append_blanks (List.forall_mem_singleton.mpr rfl) _)]

/-! ### The settings of a text -/

/-- The last valid assignments of a text govern its settings. -/
structure Governed (bytes : List UInt8) : Prop where
  /-- The text is its lines with line feeds between them. -/
  text : [0x0A].intercalate (lines bytes) = bytes
  lineFeed : ∀ line ∈ lines bytes, 0x0A ∉ line
  /-- Every switch has the value of the last line that assigns it one, or else its default. -/
  value : ∀ k v, (ofBytes bytes).get k = v ↔ Leaves k (lines bytes) v
  /-- It makes no difference whether carriage returns stand before the line feeds, -/
  returns : ofBytes (withReturns bytes) = ofBytes bytes
  /-- whether a line has a comment, -/
  comment : ∀ before line after comment, lines bytes = before ++ line :: after →
    0x0A ∉ comment →
    ofBytes ([0x0A].intercalate (before ++ (line ++ 0x23 :: comment) :: after)) = ofBytes bytes
  /-- and in which order two neighbours stand that assign different switches. -/
  swap : ∀ before line line' after, lines bytes = before ++ line :: line' :: after →
    ∀ k v k' v', Assigns line k v → Assigns line' k' v' → k ≠ k' →
    ofBytes ([0x0A].intercalate (before ++ line' :: line :: after)) = ofBytes bytes
  /-- A line that does not validly assign a switch leaves it as it is without the line. -/
  invalid : ∀ before line after k, lines bytes = before ++ line :: after →
    (∀ v, ¬ Assigns line k v) →
    (ofBytes bytes).get k = (ofBytes ([0x0A].intercalate (before ++ after))).get k

/-- **The last valid assignments of every text govern its settings.** -/
theorem assignments_govern (bytes : List UInt8) : Governed bytes where
  text := intercalate_lines bytes
  lineFeed _ h := not_mem_of_mem_lines h
  value _ _ := get_foldl_apply_iff
  returns := foldl_apply_of_returns (lines_withReturns bytes) {}
  comment before line after comment hlines hcomment := by
    refine ext_get fun k => get_ofBytes_replace [line] [line ++ 0x23 :: comment] hlines ?_
      fun s => ?_
    · have hline : 0x0A ∉ line :=
        not_mem_of_mem_lines (hlines ▸ List.mem_append_right before List.mem_cons_self)
      simp [hline, hcomment]
    · exact congrArg (get · k) (apply_congr (assignment?_append_comment line comment) s)
  swap before line line' after hlines k v k' v' h h' hne := by
    refine ext_get fun i => get_ofBytes_replace [line, line'] [line', line] hlines ?_ fun s => ?_
    · rintro l hl
      have hmem : l ∈ lines bytes := by
        rw [hlines]
        rcases List.mem_pair.mp hl with rfl | rfl <;> simp
      exact not_mem_of_mem_lines hmem
    · exact congrArg (get · i) (apply_comm h h' hne s).symm
  invalid before line after k hlines h := by
    refine (get_ofBytes_replace [line] [] hlines ?_ fun s => ?_).symm
    · simp
    · exact (get_apply_of_not_assigns h s).symm

/-- A later word that stands for nothing, a second equals sign, and a comment in front of one. -/
example :
    ofBytes (["enable_traces = yes\r", "enable_traces = maybe", "\tlog_events = 1 = on",
      "enable_sys_events # = on", "enable_sys_events=off#"].flatMap fun l => ascii l ++ [0x0A]) =
      { systemEvents := false, traces := true, logEvents := false } := by decide

end Switches

end InterCore
