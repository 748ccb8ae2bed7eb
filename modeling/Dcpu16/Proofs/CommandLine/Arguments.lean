/-
What an argument list gives. Options are taken from its front one at a time, each of them a choice, up to an operand,
two dashes or the end. The grammar of these lists is stated apart from the reading of them, and the two agree: reading
succeeds with the choices made in order, and ends in a request for help exactly where one comes up.
-/
import Dcpu16.CommandLine.Options
import Dcpu16.Proofs.Table
import Dcpu16.Proofs.Text.Written

namespace Dcpu16.CommandLine

/-! ## The grammar -/

/-- What an option asks for. -/
inductive Choice where
  | switch (s : Switch) (on : Bool)
  | output (path : Text)
  | define (name text : Text)
deriving DecidableEq, Repr

/-- An argument is an option: one or two dashes, the name and, behind an equals sign, perhaps a value. -/
structure Spells (arg name : Text) (value : Option Text) : Prop where
  named : name ≠ []
  undashed : name.head? ≠ some 45
  unequal : 61 ∉ name
  spelled : ∃ dashes, (dashes = [45] ∨ dashes = [45, 45]) ∧ arg = dashes ++ (name ++ value.elim [] (61 :: ·))

/-- The choice of a setting with a value. A definition is a name, an equals sign and a text. -/
inductive Setting.Chooses : Setting → Text → Choice → Prop where
  | output (path : Text) : Chooses .output path (.output path)
  | define {name : Text} (named : name ≠ []) (unequal : 61 ∉ name) (text : Text) :
      Chooses .define (name ++ 61 :: text) (.define name text)

/-- The option at the front of the arguments, and those behind it. -/
inductive Takes : List Text → Choice → List Text → Prop where
  | switch {arg name : Text} {s : Switch} (spells : Spells arg name none) (flag : (name, .switch s) ∈ flags)
      (args : List Text) : Takes (arg :: args) (.switch s true) args
  | switchTo {arg name value : Text} {s : Switch} {on : Bool} (spells : Spells arg name (some value))
      (flag : (name, .switch s) ∈ flags) (boolean : boolean? value = some on) (args : List Text) :
      Takes (arg :: args) (.switch s on) args
  | settingTo {arg name value : Text} {s : Setting} {c : Choice} (spells : Spells arg name (some value))
      (flag : (name, .setting s) ∈ flags) (chooses : s.Chooses value c) (args : List Text) : Takes (arg :: args) c args
  | setting {arg name value : Text} {s : Setting} {c : Choice} (spells : Spells arg name none)
      (flag : (name, .setting s) ∈ flags) (chooses : s.Chooses value c) (args : List Text) :
      Takes (arg :: value :: args) c args

/-- No option is at the front of the arguments; the second list are the operands. -/
inductive Stops : List Text → List Text → Prop where
  | nil : Stops [] []
  | operand {arg : Text} (h : arg.head? ≠ some 45 ∨ arg = [45]) (args : List Text) : Stops (arg :: args) (arg :: args)
  | terminator (args : List Text) : Stops ([45, 45] :: args) args

/-- The choices of the options in order, and the operands behind them. -/
inductive Given : List Text → List Choice → List Text → Prop where
  | stop {args operands : List Text} (h : Stops args operands) : Given args [] operands
  | take {args rest operands : List Text} {c : Choice} {cs : List Choice} (head : Takes args c rest)
      (tail : Given rest cs operands) : Given args (c :: cs) operands

/-- Help is asked for in the place of an option. -/
inductive AsksHelp : List Text → Prop where
  | here {arg name : Text} {value : Option Text} (spells : Spells arg name value) (help : name ∈ helpNames)
      (args : List Text) : AsksHelp (arg :: args)
  | later {args rest : List Text} {c : Choice} (head : Takes args c rest) (tail : AsksHelp rest) : AsksHelp args

/-! ## What choices amount to -/

namespace Choice

/-- The path that a choice gives the image. -/
def output? : Choice → Option Text
  | .output path => some path
  | _ => none

/-- The strictness that a choice sets. -/
def strict? : Choice → Option Bool
  | .switch .strict on => some on
  | _ => none

/-- The definition that a choice makes. -/
def definition? : Choice → Option (Text × Text)
  | .define name text => some (name, text)
  | _ => none

/-- The choice is only about what is printed. -/
def isDisplay : Choice → Bool
  | .switch .listing _ | .switch .tree _ | .switch .verbose _ => true
  | _ => false

/-- The output path that was given last; empty if there is none. -/
def lastOutput (cs : List Choice) : Text := (cs.filterMap output?).getLastD []

/-- The strictness that was set last. -/
def lastStrict (cs : List Choice) : Bool := (cs.filterMap strict?).getLastD false

/-- All definitions in order. -/
def definitions (cs : List Choice) : List (Text × Text) := cs.filterMap definition?

/-- Display aside, the choices decide alone. -/
theorem filterMap_decisive {α : Type} {f : Choice → Option α} (hf : ∀ c, c.isDisplay = true → f c = none)
    (cs : List Choice) : (cs.filter (! ·.isDisplay)).filterMap f = cs.filterMap f := by
  induction cs with
  | nil => rfl
  | cons c cs ih =>
    cases hc : c.isDisplay with
    | true => rw [List.filter_cons_of_neg (by simp [hc]), ih, List.filterMap_cons_none (hf c hc)]
    | false => rw [List.filter_cons_of_pos (by simp [hc]), List.filterMap_cons, List.filterMap_cons, ih]

/-- Choices that differ in display alone give the same output, strictness and definitions. -/
theorem decisive_same {cs cs' : List Choice} (h : cs.filter (! ·.isDisplay) = cs'.filter (! ·.isDisplay)) :
    lastOutput cs = lastOutput cs' ∧ lastStrict cs = lastStrict cs' ∧ definitions cs = definitions cs' := by
  have hsame : ∀ {α : Type} {f : Choice → Option α}, (∀ c, c.isDisplay = true → f c = none) →
      cs.filterMap f = cs'.filterMap f := by
    intro α f hf
    rw [← filterMap_decisive hf cs, h, filterMap_decisive hf]
  have houtput : ∀ c : Choice, c.isDisplay = true → c.output? = none
    | .switch _ _, _ => rfl
  have hstrict : ∀ c : Choice, c.isDisplay = true → c.strict? = none
    | .switch .listing _, _ | .switch .tree _, _ | .switch .verbose _, _ => rfl
  have hdefinition : ∀ c : Choice, c.isDisplay = true → c.definition? = none
    | .switch _ _, _ => rfl
  exact ⟨congrArg (List.getLastD · _) (hsame houtput), congrArg (List.getLastD · _) (hsame hstrict), hsame hdefinition⟩

end Choice

namespace Options

/-- The options after one more choice. -/
def choose (o : Options) : Choice → Options
  | .switch s on => o.switch s on
  | .output path => { o with output := path }
  | .define name text => { o with definitions := o.definitions ++ [(name, text)] }

theorem choose_output (o : Options) (c : Choice) : (o.choose c).output = c.output?.getD o.output := by
  cases c with
  | switch s on => cases s <;> rfl
  | output path => rfl
  | define name text => rfl

theorem choose_strict (o : Options) (c : Choice) : (o.choose c).strict = c.strict?.getD o.strict := by
  cases c with
  | switch s on => cases s <;> rfl
  | output path => rfl
  | define name text => rfl

/-- A later path or strictness overrides, and definitions add up. -/
theorem foldl_choose (o : Options) (cs : List Choice) :
    (cs.foldl choose o).output = (cs.filterMap Choice.output?).getLastD o.output ∧
    (cs.foldl choose o).strict = (cs.filterMap Choice.strict?).getLastD o.strict ∧
    (cs.foldl choose o).definitions = o.definitions ++ cs.filterMap Choice.definition? := by
  refine ⟨foldl_last choose_output o cs, foldl_last choose_strict o cs, ?_⟩
  induction cs generalizing o with
  | nil => exact (List.append_nil _).symm
  | cons c cs ih =>
    rw [List.foldl_cons, ih]
    cases c with
    | switch s on => cases s <;> rfl
    | output path => rfl
    | define name text => exact List.append_assoc ..

end Options

/-! ## Reading is the grammar -/

namespace Argument

theorem ofBody_cons {b : UInt8} (hdash : b ≠ 45) (hequals : b ≠ 61) (t : Text) :
    ofBody (b :: t) =
      match Text.cutAt? 61 t with
      | some (name, value) => .named (b :: name) (some value)
      | none => .named (b :: t) none := by
  unfold ofBody
  split
  · rename_i h
    cases h
  · rename_i h
    cases h
    exact absurd rfl hdash
  · rename_i h
    cases h
    exact absurd rfl hequals
  · rename_i h
    cases h
    rfl

theorem ofBody_named {b : UInt8} {t : Text} (hdash : b ≠ 45) (hequals : 61 ∉ b :: t) (value : Option Text) :
    ofBody (b :: t ++ value.elim [] (61 :: ·)) = .named (b :: t) value := by
  rw [List.mem_cons, not_or] at hequals
  rw [List.cons_append, ofBody_cons hdash (Ne.symm hequals.1)]
  cases value with
  | none => rw [Option.elim_none, List.append_nil, Text.cutAt?_eq_none hequals.2]
  | some v => rw [Option.elim_some, Text.cutAt?_append hequals.2]

theorem eq_of_ofBody {t name : Text} {value : Option Text} (h : ofBody t = .named name value) :
    name ≠ [] ∧ name.head? ≠ some 45 ∧ 61 ∉ name ∧ t = name ++ value.elim [] (61 :: ·) := by
  cases t with
  | nil => cases h
  | cons b t =>
    by_cases hdash : b = 45
    · subst hdash
      cases h
    by_cases hequals : b = 61
    · subst hequals
      cases h
    rw [ofBody_cons hdash hequals] at h
    rcases Text.cutAt?_cases 61 t with ⟨hnone, hcut⟩ | ⟨before, after, rfl, hbefore, hcut⟩
    · rw [hcut] at h
      cases h
      exact ⟨List.cons_ne_nil _ _, by simpa using hdash, by simp [Ne.symm hequals, hnone], by simp⟩
    · rw [hcut] at h
      cases h
      exact ⟨List.cons_ne_nil _ _, by simpa using hdash, by simp [Ne.symm hequals, hbefore], rfl⟩

theorem ofText_dash {b : UInt8} (hdash : b ≠ 45) (t : Text) : ofText (45 :: b :: t) = ofBody (b :: t) := by
  rw [ofText]
  · rintro rfl -
    exact hdash rfl
  · exact hdash

theorem ofText_of_spells {arg name : Text} {value : Option Text} (h : Spells arg name value) :
    ofText arg = .named name value := by
  obtain ⟨hnamed, hhead, hequals, dashes, hdashes, rfl⟩ := h
  cases name with
  | nil => exact absurd rfl hnamed
  | cons b t =>
    have hdash : b ≠ 45 := by simpa using hhead
    have hbody := ofBody_named hdash hequals value
    rcases hdashes with rfl | rfl
    · exact (ofText_dash hdash _).trans hbody
    · exact hbody

theorem spells_of_ofText {arg name : Text} {value : Option Text} (h : ofText arg = .named name value) :
    Spells arg name value := by
  unfold ofText at h
  split at h
  · cases h
  · obtain ⟨hnamed, hhead, hequals, rfl⟩ := eq_of_ofBody h
    exact ⟨hnamed, hhead, hequals, [45, 45], .inr rfl, rfl⟩
  · obtain ⟨hnamed, hhead, hequals, ht⟩ := eq_of_ofBody h
    exact ⟨hnamed, hhead, hequals, [45], .inl rfl, congrArg (45 :: ·) ht⟩
  · cases h

theorem ofText_operand {arg : Text} (h : arg.head? ≠ some 45 ∨ arg = [45]) : ofText arg = .operand := by
  rcases h with h | rfl
  · unfold ofText
    split
    · exact absurd rfl h
    · exact absurd rfl h
    · exact absurd rfl h
    · rfl
  · rfl

/-- Arguments that are no option. -/
theorem stops_of_ofText {arg : Text} {args : List Text} :
    (ofText arg = .operand → Stops (arg :: args) (arg :: args)) ∧ (ofText arg = .terminator → Stops (arg :: args) args) := by
  have hbody : ∀ t, ofBody t ≠ .operand ∧ ofBody t ≠ .terminator := by
    intro t
    unfold ofBody
    split
    · simp
    · simp
    · simp
    · split <;> simp
  unfold ofText
  split
  · exact ⟨nofun, fun _ => .terminator args⟩
  · exact ⟨fun h => absurd h (hbody _).1, fun h => absurd h (hbody _).2⟩
  · exact ⟨fun h => absurd h (hbody _).1, fun h => absurd h (hbody _).2⟩
  · rename_i hone htwo hthree
    refine ⟨fun _ => .operand ?_ args, nofun⟩
    rcases arg with - | ⟨b, - | ⟨c, t⟩⟩
    · exact .inl (by simp)
    · by_cases hb : b = 45
      · exact .inr (by rw [hb])
      · exact .inl (by simpa using hb)
    · exact .inl fun h => by cases h; exact hthree c t rfl

end Argument

theorem lookup_flags {name : Text} {f : Flag} : flags.lookup name = some f ↔ (name, f) ∈ flags :=
  Table.lookup_iff_mem (by decide) name f

theorem lookup_helpNames : ∀ name ∈ helpNames, flags.lookup name = none := by decide

namespace Options

theorem set_of_chooses {s : Setting} {value : Text} {c : Choice} (h : s.Chooses value c) (o : Options) (name : Text) :
    o.set s name value = .ok (o.choose c) := by
  cases h with
  | output path => rfl
  | define named unequal text =>
    rename_i n
    cases n with
    | nil => exact absurd rfl named
    | cons b n =>
      have hdefinition : definition? (b :: n ++ 61 :: text) = some (b :: n, text) := by
        rw [definition?, Text.cutAt?_append unequal]
      rw [set, hdefinition]
      rfl

/-- A setting is given its value, or the fault is not a request for help. -/
theorem set_cases (o : Options) (s : Setting) (name value : Text) :
    (∃ c, s.Chooses value c) ∨ ∃ e, e ≠ .help ∧ o.set s name value = .error e := by
  cases s with
  | output => exact .inl ⟨_, .output value⟩
  | define =>
    rcases Text.cutAt?_cases 61 value with ⟨-, hcut⟩ | ⟨before, after, rfl, hbefore, hcut⟩
    · exact .inr ⟨.notDefinition name value, nofun, by rw [set, definition?, hcut]⟩
    · cases before with
      | nil => exact .inr ⟨.notDefinition name _, nofun, by rw [set, definition?, hcut]⟩
      | cons b before => exact .inl ⟨_, .define (List.cons_ne_nil _ _) hbefore after⟩

theorem read_of_stops {args operands : List Text} (h : Stops args operands) (o : Options) :
    o.read args = .ok (o, operands) := by
  cases h with
  | nil => rfl
  | operand h args => rw [read, Argument.ofText_operand h]
  | terminator => rfl

/-- An option at the front is read as its choice. -/
theorem read_of_takes {args rest : List Text} {c : Choice} (h : Takes args c rest) (o : Options) :
    o.read args = (o.choose c).read rest := by
  cases h with
  | switch spells flag =>
    rw [read, Argument.ofText_of_spells spells]
    simp only [lookup_flags.2 flag]
    rfl
  | switchTo spells flag boolean =>
    rw [read, Argument.ofText_of_spells spells]
    simp only [lookup_flags.2 flag, boolean]
    rfl
  | settingTo spells flag chooses =>
    rw [read, Argument.ofText_of_spells spells]
    simp only [lookup_flags.2 flag, set_of_chooses chooses]
  | setting spells flag chooses =>
    rw [read, Argument.ofText_of_spells spells]
    simp only [lookup_flags.2 flag, set_of_chooses chooses]

/-- The choices of a list are made in order. -/
theorem read_of_given {args operands : List Text} {cs : List Choice} (h : Given args cs operands) (o : Options) :
    o.read args = .ok (cs.foldl choose o, operands) := by
  induction h generalizing o with
  | stop h => exact read_of_stops h o
  | take head tail ih => rw [read_of_takes head, ih, List.foldl_cons]

theorem read_of_asksHelp {args : List Text} (h : AsksHelp args) (o : Options) : o.read args = .error .help := by
  induction h generalizing o with
  | here spells help args =>
    rw [read, Argument.ofText_of_spells spells]
    simp [lookup_helpNames _ help, help]
  | later head tail ih => rw [read_of_takes head, ih]

/-- What can be at the front of the arguments. -/
theorem front_cases (o : Options) (args : List Text) :
    (∃ operands, Stops args operands) ∨ (∃ c rest, Takes args c rest) ∨ AsksHelp args ∨
      ∃ e, e ≠ .help ∧ o.read args = .error e := by
  cases args with
  | nil => exact .inl ⟨[], .nil⟩
  | cons arg args =>
    cases harg : Argument.ofText arg with
    | operand => exact .inl ⟨_, Argument.stops_of_ofText.1 harg⟩
    | terminator => exact .inl ⟨_, Argument.stops_of_ofText.2 harg⟩
    | malformed => exact .inr (.inr (.inr ⟨.malformed arg, nofun, by rw [read, harg]⟩))
    | named name value =>
      have spells := Argument.spells_of_ofText harg
      cases hflag : flags.lookup name with
      | none =>
        by_cases help : name ∈ helpNames
        · exact .inr (.inr (.inl (.here spells help args)))
        · exact .inr (.inr (.inr ⟨.undefined name, nofun, by rw [read, harg]; simp [hflag, help]⟩))
      | some f =>
        have flag := lookup_flags.1 hflag
        cases f with
        | switch s =>
          cases value with
          | none => exact .inr (.inl ⟨_, _, .switch spells flag args⟩)
          | some v =>
            cases hv : boolean? v with
            | some on => exact .inr (.inl ⟨_, _, .switchTo spells flag hv args⟩)
            | none => exact .inr (.inr (.inr ⟨.notBoolean name v, nofun, by rw [read, harg]; simp [hflag, hv]⟩))
        | setting s =>
          cases value with
          | some v =>
            rcases o.set_cases s name v with ⟨c, chooses⟩ | ⟨e, he, hset⟩
            · exact .inr (.inl ⟨_, _, .settingTo spells flag chooses args⟩)
            · exact .inr (.inr (.inr ⟨e, he, by rw [read, harg]; simp [hflag, hset]⟩))
          | none =>
            cases args with
            | nil => exact .inr (.inr (.inr ⟨.valueMissing name, nofun, by rw [read, harg]; simp [hflag]⟩))
            | cons v args =>
              rcases o.set_cases s name v with ⟨c, chooses⟩ | ⟨e, he, hset⟩
              · exact .inr (.inl ⟨_, _, .setting spells flag chooses args⟩)
              · exact .inr (.inr (.inr ⟨e, he, by rw [read, harg]; simp [hflag, hset]⟩))

theorem length_of_takes {args rest : List Text} {c : Choice} (h : Takes args c rest) : rest.length < args.length := by
  cases h <;> simp only [List.length_cons] <;> omega

/-- Arguments are in the grammar, or ask for help, or are faulty. -/
theorem read_cases (o : Options) (args : List Text) :
    (∃ cs operands, Given args cs operands) ∨ AsksHelp args ∨ ∃ e, e ≠ .help ∧ o.read args = .error e := by
  rcases o.front_cases args with ⟨operands, h⟩ | ⟨c, rest, head⟩ | help | fault
  · exact .inl ⟨[], operands, .stop h⟩
  · have := length_of_takes head
    rcases (o.choose c).read_cases rest with ⟨cs, operands, tail⟩ | help | ⟨e, he, hread⟩
    · exact .inl ⟨c :: cs, operands, .take head tail⟩
    · exact .inr (.inl (.later head help))
    · exact .inr (.inr ⟨e, he, (read_of_takes head o).trans hread⟩)
  · exact .inr (.inl help)
  · exact .inr (.inr fault)
termination_by args.length

/-- Reading succeeds on the lists of the grammar, with their choices. -/
theorem read_ok_iff {o o' : Options} {args operands : List Text} :
    o.read args = .ok (o', operands) ↔ ∃ cs, Given args cs operands ∧ o' = cs.foldl choose o := by
  constructor
  · intro h
    rcases o.read_cases args with ⟨cs, operands', given⟩ | help | ⟨e, -, hread⟩
    · rw [read_of_given given] at h
      cases h
      exact ⟨cs, given, rfl⟩
    · rw [read_of_asksHelp help] at h
      cases h
    · rw [hread] at h
      cases h
  · rintro ⟨cs, given, rfl⟩
    exact read_of_given given o

theorem read_help_iff {o : Options} {args : List Text} : o.read args = .error .help ↔ AsksHelp args := by
  refine ⟨fun h => ?_, fun help => read_of_asksHelp help o⟩
  rcases o.read_cases args with ⟨cs, operands, given⟩ | help | ⟨e, he, hread⟩
  · rw [read_of_given given] at h
    cases h
  · exact help
  · rw [hread] at h
    cases h
    exact absurd rfl he

end Options

end Dcpu16.CommandLine
