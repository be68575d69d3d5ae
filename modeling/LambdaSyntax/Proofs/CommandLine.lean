import Mathlib.Data.List.TakeWhile
import LambdaSyntax.Options

/-!
The grammar of the command line.

A command line that is read is made of blocks: an argument that spells options (`Spelling`), and
behind it values if these are still to follow. There is nothing else on it but two dashes at its
end. The reader knows nothing of blocks; it only keeps whether an option takes the next argument.
`Reading.Completes` is what this means for the arguments left: first values, at least one of them
if the option has none yet and none if no option is open, and then whole blocks. What one argument
does to this is said twice, for a value and for the first argument of a block
(`completes_value_iff`, `completes_block_iff`), and both directions of the grammar are inductions
over the arguments with these two as their steps.

* `argument_text_eq_ok_iff`: what an argument that spells options does, in every state.
* `argument_cases`: no other arguments are read but values, and two dashes at the end.
* `parse_eq_ok_iff_blocks`: the command lines that are read are those of the grammar.
-/

namespace LambdaSyntax

namespace Options

/-! ### Blocks -/

/-- An argument that is no option: one dash alone, or a text that does not begin with a dash. -/
def IsValue (argument : String) : Prop :=
  argument = "" ∨ argument = "-" ∨ argument.toList.head? ≠ some '-'

theorem isValue_iff {argument : String} :
    IsValue argument ↔ ∀ c rest, argument.toList ≠ '-' :: c :: rest := by
  constructor
  · rintro (rfl | rfl | hhead) c rest hlist
    · cases hlist
    · cases hlist
    · simp [hlist] at hhead
  · intro h
    by_cases hhead : argument.toList.head? = some '-'
    · obtain ⟨rest, hlist⟩ := List.head?_eq_some_iff.mp hhead
      cases rest with
      | nil => exact .inr (.inl (String.toList_inj.mp hlist))
      | cons c rest => exact absurd hlist (h c rest)
    · exact .inr (.inr hhead)

/-- A text without the equals sign that it may begin with. -/
def withoutEquals (text : String) : String :=
  if text.toList.head? = some '=' then String.ofList text.toList.tail else text

/-- The ways in which one argument spells options. -/
inductive Spelling where
  /-- The option for trees alone, by its short or its long name. -/
  | trees (long : Bool)
  /-- The short name of the option for source files, the one for trees in front of it or not. -/
  | sources (withTrees : Bool)
  /-- The same with a value attached. -/
  | attached (withTrees : Bool) (text : String) (text_ne_empty : text ≠ "")
  /-- The long name of the option for source files. -/
  | longSources
  /-- The same with a value behind an equals sign, which may be empty. -/
  | longAttached (text : String)

namespace Spelling

/-- The argument. -/
def text : Spelling → String
  | .trees long => if long then "--print-trees" else "-p"
  | .sources withTrees => if withTrees then "-ps" else "-s"
  | .attached withTrees text _ => (if withTrees then "-ps" else "-s") ++ text
  | .longSources => "--src-filepaths"
  | .longAttached text => "--src-filepaths=" ++ text

theorem text_attached (withTrees : Bool) (text : String) (hne : text ≠ "") :
    (Spelling.attached withTrees text hne).text = (if withTrees then "-ps" else "-s") ++ text := rfl

theorem text_longAttached (text : String) :
    (Spelling.longAttached text).text = "--src-filepaths=" ++ text := rfl

/-- Whether the option for trees is spelled. -/
def asksForTrees : Spelling → Bool
  | .trees _ => true
  | .sources withTrees => withTrees
  | .attached withTrees _ _ => withTrees
  | .longSources => false
  | .longAttached _ => false

/-- Whether the values are still to follow. -/
def takesValues : Spelling → Bool
  | .sources _ => true
  | .longSources => true
  | _ => false

/-- The value attached, less one equals sign in front of it. -/
def paths : Spelling → List String
  | .attached _ text _ => [withoutEquals text]
  | .longAttached text => [text]
  | _ => []

end Spelling

/-- Arguments that belong together: one that spells options, and behind it one or more values if
these are still to follow, and none otherwise. -/
structure Block where
  spelling : Spelling
  values : List String
  isValue_of_mem : ∀ value ∈ values, IsValue value
  takesValues_iff : spelling.takesValues = true ↔ values ≠ []

namespace Block

/-- The arguments of a block. -/
def arguments (block : Block) : List String := block.spelling.text :: block.values

/-- The source files that a block names. -/
def paths (block : Block) : List String := block.spelling.paths ++ block.values

/-- Whether a block asks for trees. -/
def asksForTrees (block : Block) : Bool := block.spelling.asksForTrees

end Block

/-! ### What an argument does -/

namespace Reading

/-- The arguments read so far and one more, which spells options. -/
def after (reading : Reading) (spelling : Spelling) : Reading :=
  ⟨⟨reading.options.paths ++ spelling.paths, reading.options.printTrees || spelling.asksForTrees⟩,
    if spelling.takesValues then .awaiting else .closed⟩

variable {reading next : Reading} {isLast : Bool}

/-- An argument that spells options may come where no value is missing, and the option for trees
only once. -/
structure Admits (reading : Reading) (spelling : Spelling) : Prop where
  taking_ne_awaiting : reading.taking ≠ .awaiting
  trees_once : spelling.asksForTrees = true → reading.options.printTrees = false

theorem attachedToShort?_of_ne {text : List Char} (h : text ≠ []) :
    attachedToShort? text = some (withoutEquals (String.ofList text)) := by
  cases text with
  | nil => exact absurd rfl h
  | cons c rest =>
      by_cases hc : c = '='
      · subst hc
        simp [attachedToShort?, withoutEquals]
      · simp [attachedToShort?, withoutEquals, hc]

/-- An argument that is no option is read as a value. -/
theorem argument_value {argument : String} (h : IsValue argument) :
    reading.argument isLast argument = reading.value argument := by
  unfold Reading.argument
  split
  · rename_i hlist
    exact absurd hlist (isValue_iff.mp h _ _)
  · rename_i hlist
    exact absurd hlist (isValue_iff.mp h _ _)
  · rename_i hlist
    exact absurd hlist (isValue_iff.mp h _ _)
  · rfl

section Flag

variable {attached? : Option String}

theorem flag_sources_eq_ok_iff :
    reading.flag .sources attached? = .ok next ↔
      reading.taking ≠ .awaiting ∧
        next = ⟨⟨reading.options.paths ++ attached?.toList, reading.options.printTrees⟩,
          if attached?.isSome then .closed else .awaiting⟩ := by
  by_cases hawaiting : reading.taking = .awaiting
  · simp [flag, hawaiting]
  · cases attached? with
    | none => simp [flag, hawaiting, eq_comm]
    | some path => simp [flag, hawaiting, addPath, eq_comm]

theorem flag_trees_eq_ok_iff :
    reading.flag .trees attached? = .ok next ↔
      reading.taking ≠ .awaiting ∧ reading.options.printTrees = false ∧
        next = ⟨⟨reading.options.paths, true⟩, .closed⟩ := by
  by_cases hawaiting : reading.taking = .awaiting
  · simp [flag, hawaiting]
  · cases htrees : reading.options.printTrees with
    | true => simp [flag, hawaiting, htrees]
    | false => simp [flag, hawaiting, htrees, eq_comm]

/-- Help and version end the reading. -/
theorem flag_ne_ok {flag : Flag} (hsources : flag ≠ .sources) (htrees : flag ≠ .trees) :
    reading.flag flag attached? ≠ .ok next := by
  by_cases hawaiting : reading.taking = .awaiting
  · simp [Reading.flag, hawaiting]
  · cases flag with
    | sources => exact absurd rfl hsources
    | trees => exact absurd rfl htrees
    | help => simp [Reading.flag, hawaiting]
    | version => simp [Reading.flag, hawaiting]

end Flag

theorem short_nil_eq_ok_iff : reading.short [] = .ok next ↔ next = reading := by
  rw [short, Except.ok.injEq, eq_comm]

theorem short_trees_eq_ok_iff {rest : List Char} :
    reading.short ('p' :: rest) = .ok next ↔
      reading.taking ≠ .awaiting ∧ reading.options.printTrees = false ∧
        Reading.short ⟨⟨reading.options.paths, true⟩, .closed⟩ rest = .ok next := by
  constructor
  · intro h
    cases hflag : reading.flag .trees none with
    | error stop => simp [short, Flag.ofShort?, hflag] at h
    | ok after =>
        obtain ⟨hawaiting, htrees, rfl⟩ := flag_trees_eq_ok_iff.mp hflag
        have hshort : Reading.short ⟨⟨reading.options.paths, true⟩, .closed⟩ rest = .ok next := by
          simpa [short, Flag.ofShort?, hflag] using h
        exact ⟨hawaiting, htrees, hshort⟩
  · rintro ⟨hawaiting, htrees, hrest⟩
    have hflag : reading.flag .trees none = .ok ⟨⟨reading.options.paths, true⟩, .closed⟩ :=
      flag_trees_eq_ok_iff.mpr ⟨hawaiting, htrees, rfl⟩
    simpa [short, Flag.ofShort?, hflag] using hrest

/-- The short name of the option for source files, the one for trees in front of it or not. -/
theorem short_sources_eq_ok_iff {withTrees : Bool} {rest : List Char} :
    reading.short ((if withTrees then ['p', 's'] else ['s']) ++ rest) = .ok next ↔
      reading.taking ≠ .awaiting ∧ (withTrees = true → reading.options.printTrees = false) ∧
        next = ⟨⟨reading.options.paths ++ (attachedToShort? rest).toList,
            reading.options.printTrees || withTrees⟩,
          if (attachedToShort? rest).isSome then .closed else .awaiting⟩ := by
  have hsources : ∀ before : Reading,
      before.short ('s' :: rest) = before.flag .sources (attachedToShort? rest) := fun _ => rfl
  cases withTrees with
  | true => simp [short_trees_eq_ok_iff, hsources, flag_sources_eq_ok_iff]
  | false => simp [hsources, flag_sources_eq_ok_iff]

theorem admits_iff {spelling : Spelling} :
    reading.Admits spelling ↔ reading.taking ≠ .awaiting ∧
      (spelling.asksForTrees = true → reading.options.printTrees = false) :=
  ⟨fun h => ⟨h.taking_ne_awaiting, h.trees_once⟩, fun h => ⟨h.1, h.2⟩⟩

/-- **What an argument that spells options does.** -/
theorem argument_text_eq_ok_iff {spelling : Spelling} :
    reading.argument isLast spelling.text = .ok next ↔
      reading.Admits spelling ∧ next = reading.after spelling := by
  rw [admits_iff, and_assoc]
  cases spelling with
  | trees long =>
      cases long with
      | true =>
          have hflag : reading.argument isLast (Spelling.trees true).text =
              reading.flag .trees none := rfl
          rw [hflag, flag_trees_eq_ok_iff]
          simp [after, Spelling.paths, Spelling.asksForTrees, Spelling.takesValues]
      | false =>
          have hshort : reading.argument isLast (Spelling.trees false).text =
              reading.short ['p'] := rfl
          rw [hshort, short_trees_eq_ok_iff, short_nil_eq_ok_iff]
          simp [after, Spelling.paths, Spelling.asksForTrees, Spelling.takesValues]
  | sources withTrees =>
      have hshort : reading.argument isLast (Spelling.sources withTrees).text =
          reading.short ((if withTrees then ['p', 's'] else ['s']) ++ []) := by
        cases withTrees <;> rfl
      rw [hshort, short_sources_eq_ok_iff]
      simp [attachedToShort?, after, Spelling.paths, Spelling.asksForTrees, Spelling.takesValues]
  | attached withTrees text hne =>
      have hshort : reading.argument isLast (Spelling.attached withTrees text hne).text =
          reading.short ((if withTrees then ['p', 's'] else ['s']) ++ text.toList) := by
        cases withTrees <;> simp [Spelling.text_attached, argument]
      have hattached : attachedToShort? text.toList = some (withoutEquals text) := by
        rw [attachedToShort?_of_ne (mt String.toList_eq_nil_iff.mp hne), String.ofList_toList]
      rw [hshort, short_sources_eq_ok_iff, hattached]
      simp [after, Spelling.paths, Spelling.asksForTrees, Spelling.takesValues]
  | longSources =>
      have hflag : reading.argument isLast Spelling.longSources.text =
          reading.flag .sources none := rfl
      rw [hflag, flag_sources_eq_ok_iff]
      simp [after, Spelling.paths, Spelling.asksForTrees, Spelling.takesValues]
  | longAttached text =>
      have hlist : (Spelling.longAttached text).text.toList =
          '-' :: '-' :: ("src-filepaths=".toList ++ text.toList) := by
        rw [Spelling.text_longAttached, String.toList_append]
        rfl
      have hflag : reading.long ("src-filepaths=".toList ++ text.toList) =
          reading.flag .sources (some (String.ofList text.toList)) := rfl
      have hargument : reading.argument isLast (Spelling.longAttached text).text =
          reading.flag .sources (some text) := by
        unfold argument
        rw [hlist]
        rw [String.ofList_toList] at hflag
        exact hflag
      rw [hargument, flag_sources_eq_ok_iff]
      simp [after, Spelling.paths, Spelling.asksForTrees, Spelling.takesValues]

/-! ### Which arguments are read -/

theorem ofShort?_eq_sources_iff {name : Char} :
    Flag.ofShort? name = some .sources ↔ name = 's' := by
  unfold Flag.ofShort?
  split_ifs with hs <;> simp [hs]

theorem ofShort?_eq_trees_iff {name : Char} :
    Flag.ofShort? name = some .trees ↔ name = 'p' := by
  unfold Flag.ofShort?
  split_ifs with hs hp
  · simp [hs]
  · simp [hp]
  all_goals simp [hp]

theorem ofLong?_eq_sources_iff {name : String} :
    Flag.ofLong? name = some .sources ↔ name = "src-filepaths" := by
  unfold Flag.ofLong?
  split_ifs with hs <;> simp [hs]

theorem ofLong?_eq_trees_iff {name : String} :
    Flag.ofLong? name = some .trees ↔ name = "print-trees" := by
  unfold Flag.ofLong?
  split_ifs with hs hp
  · simp [hs]
  · simp [hp]
  all_goals simp [hp]

/-- Behind one dash, only the names of the options for source files and for trees are read to the
end. -/
theorem name_of_short {name : Char} {rest : List Char}
    (h : reading.short (name :: rest) = .ok next) :
    name = 's' ∨ (name = 'p' ∧ reading.options.printTrees = false ∧
      Reading.short ⟨⟨reading.options.paths, true⟩, .closed⟩ rest = .ok next) := by
  cases hname : Flag.ofShort? name with
  | none => simp [short, hname] at h
  | some flag =>
      cases flag with
      | sources => exact .inl (ofShort?_eq_sources_iff.mp hname)
      | trees =>
          obtain rfl := ofShort?_eq_trees_iff.mp hname
          exact .inr ⟨rfl, (short_trees_eq_ok_iff.mp h).2⟩
      | help =>
          cases hflag : reading.flag .help none with
          | error stop => simp [short, hname, hflag] at h
          | ok after => exact absurd hflag (flag_ne_ok (by decide) (by decide))
      | version =>
          cases hflag : reading.flag .version none with
          | error stop => simp [short, hname, hflag] at h
          | ok after => exact absurd hflag (flag_ne_ok (by decide) (by decide))

/-- The options behind one dash. -/
theorem exists_text_of_short {name : Char} {rest : List Char}
    (h : reading.short (name :: rest) = .ok next) :
    ∃ spelling : Spelling, spelling.text.toList = '-' :: name :: rest := by
  have hattached : ∀ (withTrees : Bool) (text : List Char), text ≠ [] →
      ∃ spelling : Spelling, spelling.text.toList =
        (if withTrees then "-ps" else "-s").toList ++ text := by
    intro withTrees text hne
    have hnonempty : String.ofList text ≠ "" := by
      rwa [ne_eq, ← String.toList_eq_nil_iff, String.toList_ofList]
    refine ⟨.attached withTrees (String.ofList text) hnonempty, ?_⟩
    rw [Spelling.text_attached, String.toList_append, String.toList_ofList]
  rcases name_of_short h with rfl | ⟨rfl, -, hrest⟩
  · cases rest with
    | nil => exact ⟨.sources false, rfl⟩
    | cons c text => exact hattached false (c :: text) (List.cons_ne_nil c text)
  · cases rest with
    | nil => exact ⟨.trees false, rfl⟩
    | cons name rest =>
        rcases name_of_short hrest with rfl | ⟨-, htrees, -⟩
        · cases rest with
          | nil => exact ⟨.sources true, rfl⟩
          | cons c text => exact hattached true (c :: text) (List.cons_ne_nil c text)
        · cases htrees

/-- The option behind two dashes. -/
theorem exists_text_of_long {text : List Char} (h : reading.long text = .ok next) :
    ∃ spelling : Spelling, spelling.text.toList = '-' :: '-' :: text := by
  have hname : ∀ name : String, String.ofList (text.takeWhile (· ≠ '=')) = name →
      name.toList ++ text.dropWhile (· ≠ '=') = text := by
    rintro _ rfl
    rw [String.toList_ofList, List.takeWhile_append_dropWhile]
  cases hflag : Flag.ofLong? (String.ofList (text.takeWhile (· ≠ '='))) with
  | none =>
      simp only [long, hflag] at h
      cases h
  | some flag =>
      cases hbehind : text.dropWhile (· ≠ '=') with
      | nil =>
          have hread : reading.flag flag none = .ok next := by
            simpa only [long, hflag, hbehind, Option.isSome_none, Bool.false_and,
              Bool.false_eq_true, ↓reduceIte] using h
          cases flag with
          | sources =>
              have htext := hname _ (ofLong?_eq_sources_iff.mp hflag)
              rw [hbehind, List.append_nil] at htext
              exact ⟨.longSources, by rw [← htext]; rfl⟩
          | trees =>
              have htext := hname _ (ofLong?_eq_trees_iff.mp hflag)
              rw [hbehind, List.append_nil] at htext
              exact ⟨.trees true, by rw [← htext]; rfl⟩
          | help => exact absurd hread (flag_ne_ok (by decide) (by decide))
          | version => exact absurd hread (flag_ne_ok (by decide) (by decide))
      | cons c attached =>
          obtain rfl : c = '=' := by
            have hhead := List.head?_dropWhile_not (· ≠ '=') text
            rw [hbehind] at hhead
            simpa using hhead
          by_cases hsources : flag = .sources
          · subst hsources
            have htext := hname _ (ofLong?_eq_sources_iff.mp hflag)
            rw [hbehind] at htext
            refine ⟨.longAttached (String.ofList attached), ?_⟩
            rw [← htext]
            simp [Spelling.text_longAttached]
          · -- No other option takes a value.
            simp only [long, hflag, hbehind] at h
            simp [hsources] at h

/-- **An argument that spells no options is a value**, or the two dashes at the end. -/
theorem argument_cases {argument : String} (h : reading.argument isLast argument = .ok next) :
    (argument = "--" ∧ isLast = true ∧ next = reading) ∨
      (IsValue argument ∧ reading.taking ≠ .closed ∧ next = reading.addPath argument .more) ∨
      ∃ spelling : Spelling, argument = spelling.text := by
  unfold Reading.argument at h
  split at h
  · rename_i hlist
    split at h
    · rename_i hlast
      cases h
      exact .inl ⟨String.toList_inj.mp hlist, hlast, rfl⟩
    · cases h
  · rename_i text _ hlist
    obtain ⟨spelling, htext⟩ := exists_text_of_long h
    exact .inr (.inr ⟨spelling, String.toList_inj.mp (hlist.trans htext.symm)⟩)
  · rename_i name text _ hlist
    obtain ⟨spelling, htext⟩ := exists_text_of_short h
    exact .inr (.inr ⟨spelling, String.toList_inj.mp (hlist.trans htext.symm)⟩)
  · rename_i hone hlong hshort
    have hvalue : IsValue argument := isValue_iff.mpr hshort
    unfold value at h
    split at h
    · cases h
    · rename_i hopen
      cases h
      exact .inr (.inl ⟨hvalue, hopen, rfl⟩)

/-! ### The grammar of what follows -/

/-- What is still to be read fits the arguments read so far: values for the option that is open, at
least one of them if it has none yet, and then blocks. Read to the end they ask for `options`. -/
structure Completes (reading : Reading) (values : List String) (blocks : List Block)
    (options : Options) : Prop where
  isValue_of_mem : ∀ value ∈ values, IsValue value
  values_of_closed : reading.taking = .closed → values = []
  values_of_awaiting : reading.taking = .awaiting → values ≠ []
  trees_once : reading.options.printTrees.toNat + blocks.countP Block.asksForTrees ≤ 1
  options_eq : options = ⟨reading.options.paths ++ values ++ blocks.flatMap Block.paths,
    reading.options.printTrees || blocks.any Block.asksForTrees⟩

variable {options : Options} {values : List String} {blocks : List Block}

/-- A value comes where an option is open, and leaves it open. -/
theorem completes_value_iff {value : String} (hvalue : IsValue value)
    (hopen : reading.taking ≠ .closed) :
    (reading.addPath value .more).Completes values blocks options ↔
      reading.Completes (value :: values) blocks options := by
  constructor
  · intro h
    exact ⟨List.forall_mem_cons.mpr ⟨hvalue, h.isValue_of_mem⟩, fun hclosed => absurd hclosed hopen,
      fun _ => List.cons_ne_nil value values, h.trees_once, by simpa [addPath] using h.options_eq⟩
  · intro h
    exact ⟨(List.forall_mem_cons.mp h.isValue_of_mem).2, (nomatch ·), (nomatch ·),
      h.trees_once, by simpa [addPath] using h.options_eq⟩

theorem after_taking_eq_closed_iff {spelling : Spelling} :
    (reading.after spelling).taking = .closed ↔ spelling.takesValues = false := by
  cases h : spelling.takesValues <;> simp [after, h]

theorem after_taking_eq_awaiting_iff {spelling : Spelling} :
    (reading.after spelling).taking = .awaiting ↔ spelling.takesValues = true := by
  cases h : spelling.takesValues <;> simp [after, h]

/-- The option for trees is asked for once at most, counted in two ways. -/
theorem asked_once_iff {printed spelled : Bool} {count : Nat} :
    (spelled = true → printed = false) ∧ (printed || spelled).toNat + count ≤ 1 ↔
      printed.toNat + (count + spelled.toNat) ≤ 1 := by
  cases printed with
  | true => cases spelled <;> simp
  | false =>
      cases spelled with
      | true =>
          simp only [Bool.or_true, Bool.toNat_true, Bool.toNat_false, implies_true, true_and]
          omega
      | false => simp

/-- A block comes where its first argument may come, and leaves its values to be read. -/
theorem completes_block_iff {block : Block} :
    reading.Admits block.spelling ∧
        (reading.after block.spelling).Completes block.values blocks options ↔
      reading.Completes [] (block :: blocks) options := by
  have hcount : (block :: blocks).countP Block.asksForTrees =
      blocks.countP Block.asksForTrees + block.spelling.asksForTrees.toNat := by
    rw [List.countP_cons, Block.asksForTrees]
    cases block.spelling.asksForTrees <;> rfl
  constructor
  · rintro ⟨hadmits, h⟩
    refine ⟨by simp, fun _ => rfl, fun hawaiting => absurd hawaiting hadmits.taking_ne_awaiting, ?_,
      ?_⟩
    · rw [hcount]
      exact asked_once_iff.mp ⟨hadmits.trees_once, h.trees_once⟩
    · simpa [after, Block.paths, Block.asksForTrees, Bool.or_assoc] using h.options_eq
  · intro h
    have honce := h.trees_once
    rw [hcount] at honce
    obtain ⟨hadmitted, hafter⟩ := asked_once_iff.mpr honce
    refine ⟨⟨fun hawaiting => h.values_of_awaiting hawaiting rfl, hadmitted⟩,
      block.isValue_of_mem, fun hclosed => ?_, fun hawaiting => ?_, hafter, ?_⟩
    · rw [after_taking_eq_closed_iff] at hclosed
      by_contra hne
      rw [block.takesValues_iff.mpr hne] at hclosed
      cases hclosed
    · exact block.takesValues_iff.mp (after_taking_eq_awaiting_iff.mp hawaiting)
    · simpa [after, Block.paths, Block.asksForTrees, Bool.or_assoc] using h.options_eq

/-- Where no value is missing, nothing more need follow. -/
theorem completes_nil_iff :
    reading.Completes [] [] options ↔ reading.finish = .ok options := by
  unfold finish
  split
  · rename_i hawaiting
    exact iff_of_false (fun h => h.values_of_awaiting hawaiting rfl) (by simp)
  · rename_i hawaiting
    constructor
    · intro h
      simpa using h.options_eq.symm
    · intro h
      cases h
      refine ⟨by simp, fun _ => rfl, fun h => absurd h hawaiting, ?_, by simp⟩
      cases reading.options.printTrees <;> simp

/-- Arguments that fit what was read so far are read. -/
theorem arguments_of_completes {arguments ending : List String}
    (hending : ending = [] ∨ ending = ["--"])
    (harguments : arguments = values ++ blocks.flatMap Block.arguments ++ ending)
    (h : reading.Completes values blocks options) : reading.arguments arguments = .ok options := by
  induction arguments generalizing reading values blocks with
  | nil =>
      cases values with
      | cons value values => simp at harguments
      | nil =>
          cases blocks with
          | cons block blocks => simp [Block.arguments] at harguments
          | nil => exact completes_nil_iff.mp h
  | cons argument rest ih =>
      cases values with
      | cons value values =>
          obtain ⟨rfl, hrest⟩ := List.cons.inj harguments
          have hvalue := h.isValue_of_mem argument List.mem_cons_self
          have hopen : reading.taking ≠ .closed := fun hclosed => nomatch h.values_of_closed hclosed
          rw [Reading.arguments, argument_value hvalue, value, if_neg hopen]
          exact ih hrest ((completes_value_iff hvalue hopen).mpr h)
      | nil =>
          cases blocks with
          | cons block blocks =>
              obtain ⟨hargument, hrest⟩ := List.cons.inj harguments
              obtain ⟨hadmits, hblock⟩ := completes_block_iff.mpr h
              have hread : reading.argument rest.isEmpty block.spelling.text =
                  .ok (reading.after block.spelling) := argument_text_eq_ok_iff.mpr ⟨hadmits, rfl⟩
              rw [Reading.arguments, hargument, hread]
              exact ih hrest hblock
          | nil =>
              -- Only the two dashes are left.
              obtain rfl | rfl := hending
              · cases harguments
              · cases harguments
                exact completes_nil_iff.mp h

/-- Arguments that are read fit what was read so far. -/
theorem exists_completes_of_arguments {arguments : List String}
    (h : reading.arguments arguments = .ok options) :
    ∃ values blocks ending, (ending = [] ∨ ending = ["--"]) ∧
      arguments = values ++ blocks.flatMap Block.arguments ++ ending ∧
      reading.Completes values blocks options := by
  induction arguments generalizing reading with
  | nil => exact ⟨[], [], [], .inl rfl, rfl, completes_nil_iff.mpr h⟩
  | cons argument rest ih =>
      cases hargument : reading.argument rest.isEmpty argument with
      | error stop => simp [Reading.arguments, hargument] at h
      | ok next =>
          have hnext : next.arguments rest = .ok options := by
            simpa only [Reading.arguments, hargument] using h
          obtain ⟨values, blocks, ending, hending, rfl, hrest⟩ := ih hnext
          rcases argument_cases hargument with ⟨rfl, hlast, rfl⟩ | ⟨hvalue, hopen, rfl⟩ |
            ⟨spelling, rfl⟩
          · rw [List.isEmpty_iff.mp hlast] at hnext
            rw [List.isEmpty_iff.mp hlast]
            exact ⟨[], [], ["--"], .inr rfl, rfl, completes_nil_iff.mpr hnext⟩
          · exact ⟨argument :: values, blocks, ending, hending, rfl,
              (completes_value_iff hvalue hopen).mp hrest⟩
          · obtain ⟨hadmits, rfl⟩ := argument_text_eq_ok_iff.mp hargument
            have htakes : spelling.takesValues = true ↔ values ≠ [] := by
              constructor
              · intro htakes
                exact hrest.values_of_awaiting (after_taking_eq_awaiting_iff.mpr htakes)
              · intro hne
                by_contra htakes
                have hclosed : (reading.after spelling).taking = .closed :=
                  after_taking_eq_closed_iff.mpr (eq_false_of_ne_true htakes)
                exact hne (hrest.values_of_closed hclosed)
            let block : Block := ⟨spelling, values, hrest.isValue_of_mem, htakes⟩
            have hcompletes : reading.Completes [] (block :: blocks) options :=
              completes_block_iff.mp ⟨hadmits, hrest⟩
            refine ⟨[], block :: blocks, ending, hending, ?_, hcompletes⟩
            simp [block, Block.arguments]

end Reading

/-- **The command lines that are read are those of a grammar.** The arguments are blocks, one behind
the other, with two dashes at the end or not; no more than one block asks for trees. The source
files are then those that the blocks name, in order, and trees are printed if a block asks for
them. -/
theorem parse_eq_ok_iff_blocks (arguments : List String) (options : Options) :
    parse arguments = .ok options ↔
      ∃ (blocks : List Block) (ending : List String), (ending = [] ∨ ending = ["--"]) ∧
        arguments = blocks.flatMap Block.arguments ++ ending ∧
        blocks.countP Block.asksForTrees ≤ 1 ∧
        options.paths = blocks.flatMap Block.paths ∧
        (options.printTrees = true ↔ ∃ block ∈ blocks, block.asksForTrees = true) := by
  rw [parse]
  constructor
  · intro h
    obtain ⟨values, blocks, ending, hending, harguments, hcompletes⟩ :=
      Reading.exists_completes_of_arguments h
    obtain rfl := hcompletes.values_of_closed rfl
    have honce := hcompletes.trees_once
    obtain rfl := hcompletes.options_eq
    refine ⟨blocks, ending, hending, harguments, ?_, rfl, ?_⟩
    · simpa [Reading.start] using honce
    · simp [Reading.start]
  · rintro ⟨blocks, ending, hending, harguments, honce, hpaths, htrees⟩
    have hoptions : options = ⟨blocks.flatMap Block.paths, blocks.any Block.asksForTrees⟩ := by
      obtain ⟨paths, printTrees⟩ := options
      rw [Options.mk.injEq, Bool.eq_iff_iff, List.any_eq_true]
      exact ⟨hpaths, htrees⟩
    have hcompletes : Reading.start.Completes [] blocks options :=
      ⟨by simp, fun _ => rfl, (nomatch ·), by simpa [Reading.start] using honce, hoptions⟩
    exact Reading.arguments_of_completes hending harguments hcompletes

example : parse ["-ps", "a", "-", "-s==b", "--src-filepaths=", "--"] =
    .ok ⟨["a", "-", "=b", ""], true⟩ := rfl

example : parse ["-s", "a", "--", "--"] = .error (.misuse .unknownArgument) := rfl

end Options
end LambdaSyntax
