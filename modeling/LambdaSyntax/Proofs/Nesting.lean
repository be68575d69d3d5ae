import Mathlib.Data.List.Infix
import LambdaSyntax.Brackets

/-!
Nesting of openings and closings, for characters and for tokens alike.

`Nests opening closing xs` is the ordinary notion: no prefix of `xs` closes more than it opens, and
the whole of `xs` closes all that it opens. The prefix half is `NeverOvercloses`; a sequence keeps
it as long as only groups are closed that stand open (`NeverOvercloses.append`).

* `Nests.exists_matching`, `Nests.induction`: what nests consists of groups, each ended by the
  closing that matches its opening, and of elements that neither open nor close.
* `Brackets.checkFrom_eq_ok_iff`, `Brackets.check_eq_ok_iff`: the bracket check accepts exactly the
  lines whose brackets nest.
-/

namespace LambdaSyntax

section Nests

variable {α : Type}

/-- What holds of every prefix of a sequence, read off its first element and the rest. -/
theorem forall_prefix_cons {P : List α → Prop} {x : α} {xs : List α} :
    (∀ p, p <+: x :: xs → P p) ↔ P [] ∧ ∀ p, p <+: xs → P (x :: p) := by
  constructor
  · intro h
    exact ⟨h [] List.nil_prefix, fun p hp => h (x :: p) ((List.prefix_cons_inj x).mpr hp)⟩
  · rintro ⟨hnil, hcons⟩ p hp
    rcases List.prefix_cons_iff.mp hp with rfl | ⟨q, rfl, hq⟩
    · exact hnil
    · exact hcons q hq

variable [DecidableEq α] {opening closing : α}

/-- No prefix of a sequence holds more closings than openings. -/
def NeverOvercloses (opening closing : α) (xs : List α) : Prop :=
  ∀ p, p <+: xs → p.count closing ≤ p.count opening

/-- A sequence in which every opening has its closing, and every closing its opening. -/
structure Nests (opening closing : α) (xs : List α) : Prop where
  /-- No group is closed that is not open. -/
  prefixes : NeverOvercloses opening closing xs
  /-- No group stays open. -/
  total : xs.count opening = xs.count closing

theorem neverOvercloses_nil : NeverOvercloses opening closing [] := by
  intro p hp
  rw [List.prefix_nil.mp hp]
  simp

/-- The whole of a sequence is one of its prefixes. -/
theorem NeverOvercloses.count_le {xs : List α} (h : NeverOvercloses opening closing xs) :
    xs.count closing ≤ xs.count opening :=
  h xs (List.prefix_refl xs)

/-- What holds of a sequence holds of its first part. -/
theorem NeverOvercloses.of_append {xs ys : List α}
    (h : NeverOvercloses opening closing (xs ++ ys)) : NeverOvercloses opening closing xs := by
  intro p hp
  exact h p (hp.trans (List.prefix_append xs ys))

/-- A continuation keeps the property when it closes at most the groups that stand open. -/
theorem NeverOvercloses.append {xs ys : List α} (h : NeverOvercloses opening closing xs)
    (room : xs.count closing + ys.count closing ≤ xs.count opening) :
    NeverOvercloses opening closing (xs ++ ys) := by
  intro p hp
  rcases List.prefix_or_prefix_of_prefix hp (List.prefix_append xs ys) with inside | ⟨q, rfl⟩
  · exact h p inside
  · have hq : q <+: ys := (List.prefix_append_right_inj xs).mp hp
    have fewer : q.count closing ≤ ys.count closing := hq.sublist.count_le closing
    simp only [List.count_append]
    omega

/-- An element that closes a group finds one open before it. -/
theorem NeverOvercloses.room {xs : List α} {x : α} (h : NeverOvercloses opening closing (xs ++ [x]))
    (apart : opening ≠ closing) : xs.count closing + [x].count closing ≤ xs.count opening := by
  by_cases hclose : x = closing
  · have hcount := h.count_le
    simpa [hclose, List.count_singleton, apart.symm] using hcount
  · have hcount := h.of_append.count_le
    simpa [List.count_singleton, hclose] using hcount

/-- What nests has no opening behind which all groups are closed: nothing could close this one. -/
theorem not_nests_append_opening {before inner : List α} (apart : opening ≠ closing)
    (hinner : Nests opening closing inner) :
    ¬ Nests opening closing (before ++ opening :: inner) := by
  intro h
  have hbefore := h.prefixes before (List.prefix_append before (opening :: inner))
  have htotal := h.total
  have hinside := hinner.total
  rw [List.count_append, List.count_append, List.count_cons_self,
    List.count_cons_of_ne apart] at htotal
  omega

/-- What nests does not end in an opening. -/
theorem not_nests_concat_opening {xs : List α} (apart : opening ≠ closing) :
    ¬ Nests opening closing (xs ++ [opening]) :=
  not_nests_append_opening apart ⟨neverOvercloses_nil, rfl⟩

/-- A sequence that overcloses does so first at one closing, and nests before it. -/
theorem exists_first_overclosing (apart : opening ≠ closing) {xs : List α}
    (h : ¬ NeverOvercloses opening closing xs) :
    ∃ inner rest, xs = inner ++ closing :: rest ∧ Nests opening closing inner := by
  induction xs using List.reverseRecOn with
  | nil => exact absurd neverOvercloses_nil h
  | append_singleton xs x ih =>
      by_cases hbefore : NeverOvercloses opening closing xs
      · have hroom : ¬ xs.count closing + [x].count closing ≤ xs.count opening :=
          fun hroom => h (hbefore.append hroom)
        have hcount := hbefore.count_le
        obtain rfl : x = closing := by
          by_contra hne
          rw [List.count_singleton, if_neg (by simpa using hne)] at hroom
          omega
        rw [List.count_singleton_self] at hroom
        exact ⟨xs, [], rfl, hbefore, by omega⟩
      · obtain ⟨inner, rest, rfl, hinner⟩ := ih hbefore
        exact ⟨inner, rest ++ [x], by simp, hinner⟩

namespace Nests

theorem nil : Nests opening closing [] := ⟨neverOvercloses_nil, rfl⟩

/-- What nests does not start with a closing. -/
theorem head_ne_closing (apart : opening ≠ closing) {x : α} {xs : List α}
    (h : Nests opening closing (x :: xs)) : x ≠ closing := by
  rintro rfl
  have hfirst := h.prefixes [x] ⟨xs, rfl⟩
  rw [List.count_singleton_self, List.count_singleton, if_neg (by simpa using apart.symm)] at hfirst
  omega

/-- An element that neither opens nor closes does not matter. -/
theorem tail {x : α} {xs : List α} (h : Nests opening closing (x :: xs)) (hopening : x ≠ opening)
    (hclosing : x ≠ closing) : Nests opening closing xs := by
  obtain ⟨hprefixes, htotal⟩ := h
  rw [NeverOvercloses, forall_prefix_cons] at hprefixes
  simp only [List.count_cons_of_ne hopening, List.count_cons_of_ne hclosing] at hprefixes htotal
  exact ⟨hprefixes.2, htotal⟩

/-- **The closing that matches.** A group at the front ends where the elements behind its opening
first overclose. -/
theorem exists_matching (apart : opening ≠ closing) {xs : List α}
    (h : Nests opening closing (opening :: xs)) :
    ∃ inner rest, xs = inner ++ closing :: rest ∧ Nests opening closing inner ∧
      Nests opening closing rest := by
  have htotal := h.total
  rw [List.count_cons_self, List.count_cons_of_ne apart] at htotal
  have hover : ¬ NeverOvercloses opening closing xs := by
    intro hnever
    have := hnever.count_le
    omega
  obtain ⟨inner, rest, rfl, hinner⟩ := exists_first_overclosing apart hover
  refine ⟨inner, rest, rfl, hinner, ?_, ?_⟩
  · intro p hp
    have hgroup : opening :: inner ++ closing :: p <+: opening :: (inner ++ closing :: rest) :=
      (List.prefix_append_right_inj (opening :: inner)).mpr ((List.prefix_cons_inj closing).mpr hp)
    have hcount := h.prefixes _ hgroup
    have hinside := hinner.total
    simp only [List.count_append, List.count_cons_self, List.count_cons_of_ne apart,
      List.count_cons_of_ne apart.symm] at hcount
    omega
  · have hinside := hinner.total
    simp only [List.count_append, List.count_cons_self, List.count_cons_of_ne apart.symm] at htotal
    omega

end Nests

/-- **Sequences that nest, group by group.** The front is a group or an element that neither opens
nor closes. -/
theorem Nests.induction (apart : opening ≠ closing)
    {motive : (xs : List α) → Nests opening closing xs → Prop} (nil : motive [] .nil)
    (plain : ∀ x xs (h : Nests opening closing (x :: xs)) (hopening : x ≠ opening)
      (hclosing : x ≠ closing), motive xs (h.tail hopening hclosing) → motive (x :: xs) h)
    (group : ∀ inner rest (h : Nests opening closing (opening :: (inner ++ closing :: rest)))
      (hinner : Nests opening closing inner) (hrest : Nests opening closing rest),
      motive inner hinner → motive rest hrest → motive _ h) :
    ∀ {xs : List α} (h : Nests opening closing xs), motive xs h
  | [], _ => nil
  | x :: xs, h => by
      by_cases hopening : x = opening
      · subst x
        obtain ⟨inner, rest, rfl, hinner, hrest⟩ := h.exists_matching apart
        exact group inner rest h hinner hrest (Nests.induction apart nil plain group hinner)
          (Nests.induction apart nil plain group hrest)
      · have hclosing := h.head_ne_closing apart
        exact plain x xs h hopening hclosing
          (Nests.induction apart nil plain group (h.tail hopening hclosing))
termination_by xs => xs.length

end Nests

/-! ### The bracket check -/

namespace Brackets

theorem opening_ne_closing : '(' ≠ ')' := by decide

/-- With `opened` brackets open before it, a line passes when no prefix of it closes more brackets
than are open there, and all of them are closed at its end. -/
theorem checkFrom_eq_ok_iff {position : Nat} {opened : List Nat} {line : List Char} :
    checkFrom position opened line = .ok () ↔
      (∀ p, p <+: line → p.count ')' ≤ opened.length + p.count '(') ∧
        line.count ')' = opened.length + line.count '(' := by
  induction line generalizing position opened with
  | nil =>
      cases opened with
      | nil => simp [checkFrom]
      | cons innermost outer => simp [checkFrom]
  | cons c rest ih =>
      rw [forall_prefix_cons]
      unfold checkFrom
      by_cases hopen : c = '('
      · subst hopen
        simp only [↓reduceIte, ih, List.length_cons, List.count_nil, Nat.zero_le, true_and,
          List.count_cons_self, List.count_cons_of_ne opening_ne_closing]
        grind
      · by_cases hclose : c = ')'
        · subst hclose
          cases opened with
          | nil =>
              -- The closing itself is a prefix that closes too much.
              simp only [hopen, ↓reduceIte, reduceCtorEq, false_iff]
              rintro ⟨⟨-, hprefix⟩, -⟩
              have := hprefix [] List.nil_prefix
              simp at this
          | cons innermost outer =>
              simp only [hopen, ↓reduceIte, ih, List.length_cons, List.count_nil, Nat.zero_le,
                true_and, List.count_cons_self, List.count_cons_of_ne opening_ne_closing.symm]
              grind
        · simp [hopen, hclose, ih]

/-- **The bracket check accepts exactly the lines whose brackets nest.** -/
theorem check_eq_ok_iff {line : List Char} : check line = .ok () ↔ Nests '(' ')' line := by
  rw [check, checkFrom_eq_ok_iff]
  simp only [List.length_nil, Nat.zero_add]
  exact ⟨fun h => ⟨h.1, h.2.symm⟩, fun h => ⟨h.prefixes, h.total.symm⟩⟩

end Brackets

end LambdaSyntax
