import StrategyDoc.CommandLine.Arguments
import StrategyDoc.Proofs.Reading

/-! # Options of presentation

Three options of `validate` concern the looks of its output only.  They can stand anywhere
among the arguments, with their value attached or behind them.  Dropping them from a command
line that is accepted leaves one that is accepted, and what is read of it is the same in all
other options (`ofArguments_withoutPresentation`). -/

namespace StrategyDoc.CommandLine

/-- The option concerns the looks of the output only. -/
def Key.isPresentation : Key → Bool
  | .tree => true
  | .pretty => true
  | .format => true
  | _ => false

/-- The option that still needs its value after it was named. -/
def Key.pending (key : Key) : (value : Option String) → Option Key
  | some _ => none
  | none => if key.takesValue then some key else none

theorem Key.filter_pending (key : Key) (value : Option String) :
    (key.pending value).filter (fun key => !key.isPresentation)
      = if key.isPresentation then none else key.pending value := by
  cases key <;> cases value <;> rfl

/-- The options that say what is checked. -/
def Options.checking (o : Options) : Options :=
  { o with output := none, tree := false, pretty := false }

namespace Word

/-- The option that an argument names. -/
def key? : Word → Option Key
  | short letter _ => Key.ofLetter? letter
  | long name _ => Key.ofName? name
  | _ => none

/-- The value attached to an option. -/
def value? : Word → Option String
  | short _ value => value
  | long _ value => value
  | _ => none

end Word

/-- Arguments without the options of presentation and their values. -/
def withoutPresentation (pending : Option Key) : List String → List String
  | [] => []
  | arg :: rest =>
    match pending with
    | some key =>
      if key.isPresentation then withoutPresentation none rest
      else arg :: withoutPresentation none rest
    | none =>
      if Word.ofString arg = .dashes then arg :: rest
      else
        match (Word.ofString arg).key? with
        | none => arg :: withoutPresentation none rest
        | some key =>
          let others := withoutPresentation (key.pending (Word.ofString arg).value?) rest
          if key.isPresentation then others else arg :: others

namespace Options

variable {o o' : Options} {key : Key}

/-! ### One option -/

theorem set_checking (h : key.isPresentation = false) (value : String) :
    o.checking.set key value = (o.set key value).map checking := by
  cases key with
  | tree | pretty | format => nomatch h
  | help | strict => rfl
  | config =>
    show (if o.config.isSome ∨ value.isEmpty then _ else _) = _
    rw [set]
    split <;> rfl
  | maxDepth =>
    show (if o.maxDepth.isSome then _ else _) = _
    rw [set]
    split
    · rfl
    · cases readDepth value <;> rfl
  | allowEmptyBranches =>
    show (if o.allowEmptyBranches.isSome then _ else _) = _
    rw [set]
    split
    · rfl
    · cases readBool value <;> rfl

theorem switchOn_checking (h : key.isPresentation = false) :
    o.checking.switchOn key = (o.switchOn key).map checking := by
  cases key with
  | tree | pretty | format => nomatch h
  | help | config | maxDepth | allowEmptyBranches => rfl
  | strict =>
    show (if o.strict then _ else _) = _
    rw [switchOn]
    split <;> rfl

theorem checking_of_set (h : key.isPresentation = true) {value : String}
    (hset : o.set key value = .ok o') : o'.checking = o.checking := by
  cases key with
  | help | strict | config | maxDepth | allowEmptyBranches => nomatch h
  | tree | pretty => nomatch hset
  | format =>
    rw [set] at hset
    split at hset
    · nomatch hset
    · obtain ⟨output, _, rfl⟩ := Json.map_eq_ok_iff.mp hset
      rfl

theorem checking_of_switchOn (h : key.isPresentation = true)
    (hswitch : o.switchOn key = .ok o') : o'.checking = o.checking := by
  cases key with
  | help | strict | config | maxDepth | allowEmptyBranches => nomatch h
  | format => nomatch hswitch
  | tree | pretty =>
    rw [switchOn] at hswitch
    split at hswitch
    · nomatch hswitch
    · cases hswitch; rfl

theorem exists_key_of_take {key : Option Key} {value : Option String}
    {result : Options × Option Key} (h : o.take key value = .ok result) :
    ∃ key', key = some key' := by
  cases key with
  | none => nomatch h
  | some key => exact ⟨key, rfl⟩

/-- An option that is named is set, switched on, or left without its value. -/
theorem take_cases {value : Option String} {pending : Option Key}
    (h : o.take (some key) value = .ok (o', pending)) :
    (∃ text, value = some text ∧ o.set key text = .ok o' ∧ pending = none) ∨
      (value = none ∧ key.takesValue = true ∧ o' = o ∧ pending = some key) ∨
      (value = none ∧ key.takesValue = false ∧ o.switchOn key = .ok o' ∧ pending = none) := by
  cases value with
  | some text =>
    obtain ⟨set, hset, hpair⟩ := Json.map_eq_ok_iff.mp h
    cases hpair
    exact .inl ⟨text, rfl, hset, rfl⟩
  | none =>
    rw [take] at h
    split at h
    · cases h; exact .inr (.inl ⟨rfl, ‹_›, rfl, rfl⟩)
    · obtain ⟨switched, hswitch, hpair⟩ := Json.map_eq_ok_iff.mp h
      cases hpair
      exact .inr (.inr ⟨rfl, by simpa using ‹¬key.takesValue = true›, hswitch, rfl⟩)

section

variable {value : Option String} {pending : Option Key}
  (htake : o.take (some key) value = .ok (o', pending))
include htake

theorem ne_help_of_take : key ≠ .help := by
  rintro rfl
  obtain ⟨_, _, hset, _⟩ | ⟨_, htakes, _⟩ | ⟨_, _, hswitch, _⟩ := take_cases htake
  · nomatch hset
  · nomatch htakes
  · nomatch hswitch

theorem pending_of_take : pending = key.pending value := by
  obtain ⟨_, rfl, _, rfl⟩ | ⟨rfl, htakes, _, rfl⟩ | ⟨rfl, htakes, _, rfl⟩ := take_cases htake
  · rfl
  · simp [Key.pending, htakes]
  · simp [Key.pending, htakes]

theorem checking_of_take (h : key.isPresentation = true) : o'.checking = o.checking := by
  obtain ⟨_, _, hset, _⟩ | ⟨_, _, rfl, _⟩ | ⟨_, _, hswitch, _⟩ := take_cases htake
  · exact checking_of_set h hset
  · rfl
  · exact checking_of_switchOn h hswitch

theorem take_checking (h : key.isPresentation = false) :
    o.checking.take (some key) value = .ok (o'.checking, pending) := by
  obtain ⟨_, rfl, hset, rfl⟩ | ⟨rfl, htakes, rfl, rfl⟩ | ⟨rfl, htakes, hswitch, rfl⟩ :=
    take_cases htake
  · rw [take, set_checking h, hset]; rfl
  · rw [take, if_pos htakes]
  · rw [take, if_neg (by simp [htakes]), switchOn_checking h, hswitch]; rfl

end

theorem addPath_checking {path : String} (h : o.addPath path = .ok o') :
    o.checking.addPath path = .ok o'.checking := by
  rw [addPath] at h ⊢
  split at h
  · nomatch h
  · cases h
    rw [if_neg ‹_›]
    rfl

theorem addPaths_checking : ∀ {paths : List String} {o : Options}, o.addPaths paths = .ok o' →
    o.checking.addPaths paths = .ok o'.checking
  | [], _, h => by
    cases h
    rfl
  | path :: rest, o, h => by
    obtain ⟨added, hadd, hrest⟩ := Json.bind_eq_ok_iff.mp h
    rw [addPaths, addPath_checking hadd]
    exact addPaths_checking hrest

/-! ### All arguments -/

/-- An argument that is read is the two dashes, an operand or an option. -/
theorem read_cases {arg : String} {rest : List String}
    (h : o.read none (arg :: rest) = .ok o') :
    (Word.ofString arg = .dashes ∧ o.addPaths rest = .ok o') ∨
      (∃ path next, Word.ofString arg = .operand path ∧ o.addPath path = .ok next ∧
        next.read none rest = .ok o') ∨
      (∃ key next pending, (Word.ofString arg).key? = some key ∧
        o.take (some key) (Word.ofString arg).value? = .ok (next, pending) ∧
        next.read pending rest = .ok o') := by
  rw [read] at h
  dsimp only at h
  split at h
  case h_1 hword => exact .inl ⟨hword, h⟩
  case h_2 path hword =>
    obtain ⟨next, hadd, hrest⟩ := Json.bind_eq_ok_iff.mp h
    exact .inr (.inl ⟨path, next, hword, hadd, hrest⟩)
  case h_3 => nomatch h
  case h_5 => nomatch h
  case h_4 _ _ _ hword | h_6 _ _ _ hword =>
    obtain ⟨⟨next, pending⟩, htake, hrest⟩ := Json.bind_eq_ok_iff.mp h
    obtain ⟨key, hkey⟩ := exists_key_of_take htake
    rw [hkey] at htake
    rw [hword]
    exact .inr (.inr ⟨key, next, pending, hkey, htake, hrest⟩)

/-- An option that can be taken is taken where it stands. -/
theorem read_option {arg : String} {rest : List String} {pending : Option Key}
    (hkey : (Word.ofString arg).key? = some key)
    (htake : o.take (some key) (Word.ofString arg).value? = .ok (o', pending)) :
    o.read none (arg :: rest) = o'.read pending rest := by
  have hhelp := ne_help_of_take htake
  rw [read]
  dsimp only
  split
  case h_1 hword | h_2 hword => rw [hword] at hkey; nomatch hkey
  case h_3 hword | h_5 hword =>
    rw [hword] at hkey
    exact absurd (Option.some.inj hkey).symm hhelp
  case h_4 hword | h_6 hword =>
    rw [hword] at hkey htake
    simp only [Word.key?, Word.value?] at hkey htake
    rw [hkey, htake]
    rfl

/-- What is read of arguments is, but for the options of presentation, what is read of them
without these. -/
theorem read_withoutPresentation : ∀ (args : List String) {o o' : Options}
    {pending : Option Key}, o.read pending args = .ok o' →
    o.checking.read (pending.filter fun key => !key.isPresentation)
      (withoutPresentation pending args) = .ok o'.checking
  | [], o, o', pending, h => by
    cases pending with
    | none => cases h; rfl
    | some key => nomatch h
  | arg :: rest, o, o', some key, h => by
    rw [read] at h
    split at h
    · nomatch h
    · obtain ⟨next, hset, hrest⟩ := Json.bind_eq_ok_iff.mp h
      have ih := read_withoutPresentation rest hrest
      rw [withoutPresentation]
      cases hkey : key.isPresentation with
      | true =>
        rw [checking_of_set hkey hset] at ih
        simpa [Option.filter_some, hkey] using ih
      | false =>
        have hchecking := set_checking hkey arg (o := o)
        rw [hset] at hchecking
        simp only [Option.filter_some, hkey, Bool.not_false, if_true, Bool.false_eq_true, if_false]
        rw [read, if_neg ‹_›, hchecking]
        exact ih
  | arg :: rest, o, o', none, h => by
    rw [withoutPresentation]
    obtain ⟨hword, hpaths⟩ | ⟨path, next, hword, hadd, hrest⟩ |
      ⟨key, next, pending, hkey, htake, hrest⟩ := read_cases h
    · simp only [hword, if_true]
      rw [Option.filter_none, read]
      simp only [hword]
      exact addPaths_checking hpaths
    · have ih := read_withoutPresentation rest hrest
      simp only [hword, reduceCtorEq, if_false, Word.key?]
      rw [Option.filter_none, read]
      simp only [hword]
      rw [addPath_checking hadd]
      exact ih
    · have ih := read_withoutPresentation rest hrest
      have hdashes : Word.ofString arg ≠ .dashes := fun hword => by rw [hword] at hkey; nomatch hkey
      rw [pending_of_take htake] at ih htake
      simp only [hdashes, if_false, hkey]
      cases hlooks : key.isPresentation with
      | true =>
        rw [checking_of_take htake hlooks, Key.filter_pending, hlooks] at ih
        exact ih
      | false =>
        rw [Key.filter_pending, hlooks] at ih
        simp only [Bool.false_eq_true, if_false]
        rw [Option.filter_none, read_option hkey (take_checking htake hlooks)]
        exact ih

end Options

/-! ### Command lines -/

/-- **Presentation does not matter.**  A command line that is accepted is accepted without
its options of presentation, and differs from it in nothing else. -/
theorem ofArguments_withoutPresentation {args : List String} {options : Options}
    (h : Command.ofArguments args = .ok (.validate options)) :
    Command.ofArguments (withoutPresentation none args) = .ok (.validate options.checking) := by
  unfold Command.ofArguments at h
  split at h
  case h_1 => nomatch h
  case h_2 rest =>
    obtain ⟨read, hread, hpaths⟩ := Json.bind_eq_ok_iff.mp h
    have hchecking := Options.read_withoutPresentation rest hread
    have hvalidate : withoutPresentation none ("validate" :: rest)
        = "validate" :: withoutPresentation none rest := rfl
    split at hpaths
    · nomatch hpaths
    · cases hpaths
      rw [hvalidate]
      refine Json.bind_eq_ok_iff.mpr ⟨_, hchecking, ?_⟩
      exact if_neg ‹_›
  case h_3 rest =>
    obtain ⟨name, _, hname⟩ := Json.map_eq_ok_iff.mp h
    nomatch hname
  case h_4 | h_5 => split at h <;> nomatch h

/-- The flags of presentation and their values are dropped wherever they stand. -/
example :
    withoutPresentation none
        ["validate", "--tree", "a.json", "-f", "json", "--strict", "--format=text"]
      = ["validate", "a.json", "--strict"] := by
  decide

end StrategyDoc.CommandLine
