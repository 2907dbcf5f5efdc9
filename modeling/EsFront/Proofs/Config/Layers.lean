/-
Layers of configuration.

Configurations form a monoid under `Config.merge`: laying them over each other is
associative, and a configuration that leaves everything open changes nothing. Those
that pass their check are closed under it (`Config.usable`). So layers may be put
together in any order of merges (`Layering`), as long as upper ones stay above lower
ones. Main statement: `merge_layers`.
-/
import Mathlib.Algebra.Group.Submonoid.BigOperators
import EsFront.Config.Read

namespace EsFront

/-! ### Settings -/

section settings

variable {α : Type} {combine : α → α → α}

theorem mergeSettings_none (base : Option α) : mergeSettings combine base none = base := by
  cases base <;> rfl

theorem none_mergeSettings (top : Option α) : mergeSettings combine none top = top := by
  cases top <;> rfl

/-- Settings are merged associatively if values are combined so. -/
theorem mergeSettings_assoc (h : ∀ x y z, combine (combine x y) z = combine x (combine y z))
    (a b c : Option α) :
    mergeSettings combine (mergeSettings combine a b) c
      = mergeSettings combine a (mergeSettings combine b c) := by
  cases a with
  | none => rw [none_mergeSettings, none_mergeSettings]
  | some x =>
    cases b with
    | none => rw [mergeSettings_none, none_mergeSettings]
    | some y =>
      cases c with
      | none => rw [mergeSettings_none, mergeSettings_none]
      | some z => exact congrArg some (h x y z)

theorem ParserConfig.merge_assoc (a b c : ParserConfig) :
    (a.merge b).merge c = a.merge (b.merge c) := by
  simp only [ParserConfig.merge, Option.or_assoc]

theorem PrinterConfig.merge_assoc (a b c : PrinterConfig) :
    (a.merge b).merge c = a.merge (b.merge c) := by
  simp only [PrinterConfig.merge, Option.or_assoc]

end settings

namespace Config

/-! ### The monoid of configurations -/

theorem merge_assoc (a b c : Config) : (a.merge b).merge c = a.merge (b.merge c) := by
  have hparser := mergeSettings_assoc ParserConfig.merge_assoc a.parser b.parser c.parser
  have hprinter := mergeSettings_assoc PrinterConfig.merge_assoc a.printer b.printer c.printer
  have hglobals := mergeSettings_assoc List.append_assoc a.globals b.globals c.globals
  simp only [merge, Option.or_assoc, hparser, hprinter, hglobals]

theorem merge_open (a : Config) : a.merge {} = a := by
  simp only [merge, Option.none_or, mergeSettings_none]

theorem open_merge (a : Config) : merge {} a = a := by
  simp only [merge, Option.or_none, none_mergeSettings]

instance : Monoid Config where
  mul := merge
  mul_assoc := merge_assoc
  one := {}
  one_mul := open_merge
  mul_one := merge_open

/-! ### The check -/

/-- The command of the upper configuration is used if it has one. -/
theorem parserCommand?_merge (base top : Config) :
    (base.merge top).parserCommand? = top.parserCommand?.or base.parserCommand? := by
  unfold parserCommand? merge
  dsimp only
  cases base.parser with
  | none =>
    rw [none_mergeSettings]
    exact (Option.or_none).symm
  | some lower =>
    cases top.parser with
    | none => rfl
    | some upper => rfl

theorem isValid_congr {a b : Config} (h : a.parserCommand? = b.parserCommand?) :
    a.isValid = b.isValid := by
  rw [isValid, isValid, h]

/-- The merged configuration has its command from one of the two. -/
theorem isValid_merge {base top : Config} (hbase : base.isValid = true)
    (htop : top.isValid = true) : (base.merge top).isValid = true := by
  have hcommand := parserCommand?_merge base top
  cases hupper : top.parserCommand? with
  | none =>
    rw [hupper, Option.none_or] at hcommand
    rw [isValid_congr hcommand, hbase]
  | some command =>
    rw [hupper, Option.some_or, ← hupper] at hcommand
    rw [isValid_congr hcommand, htop]

/-- The configurations that pass the check. -/
def usable : Submonoid Config where
  carrier := { config | config.isValid = true }
  mul_mem' := isValid_merge
  one_mem' := rfl

/-- What is read from a text passes the check. -/
theorem isValid_of_parse {text : String} {config : Config} (h : parse text = .ok config) :
    config.isValid = true := by
  unfold parse at h
  split at h
  · cases h
  · split at h
    · rename_i hvalid
      cases h
      exact hvalid
    · cases h

/-! ### Groups of layers -/

/-- An order of merges: no layer at all, one layer, or one group laid over
another. -/
inductive Layering where
  | bare
  | single (config : Config)
  | stack (base top : Layering)

namespace Layering

/-- The layers, lowest first. -/
def layers : Layering → List Config
  | bare => []
  | single config => [config]
  | stack base top => base.layers ++ top.layers

/-- What the merges lead to. -/
def merged : Layering → Config
  | bare => {}
  | single config => config
  | stack base top => base.merged.merge top.merged

/-- The order of merges does not matter. -/
theorem merged_eq_prod (l : Layering) : l.merged = l.layers.prod := by
  induction l with
  | bare => rfl
  | single config => exact List.prod_singleton.symm
  | stack base top hbase htop =>
    rw [merged, layers, List.prod_append, ← hbase, ← htop]
    rfl

end Layering

/-- Laying configurations over each other is associative, with the one that leaves
everything open as its unit, and keeps to those that pass the check, as all that are
read do. So a list of such layers gives the same configuration however they are
grouped, which is the one that comes from merging them one by one, and it passes the
check. -/
theorem merge_layers :
    (∀ a b c : Config, (a.merge b).merge c = a.merge (b.merge c)) ∧
    (∀ a : Config, a.merge {} = a ∧ merge {} a = a) ∧
    (∀ a b : Config, a.isValid = true → b.isValid = true → (a.merge b).isValid = true) ∧
    (∀ text config, parse text = .ok config → config.isValid = true) ∧
    ∀ configs : List Config, (∀ config ∈ configs, config.isValid = true) →
      ∀ l : Layering, l.layers = configs →
        l.merged = configs.foldl merge {} ∧ l.merged.isValid = true := by
  refine ⟨merge_assoc, fun a => ⟨merge_open a, open_merge a⟩, fun a b => isValid_merge,
    fun text config => isValid_of_parse, ?_⟩
  rintro configs hvalid l rfl
  rw [l.merged_eq_prod]
  exact ⟨List.prod_eq_foldl, usable.list_prod_mem hvalid⟩

/-- Three layers, of which the upper two have sections with open settings. -/
def threeLayers : List Config :=
  [{ parser := some { command := some ["node", "dump.js"] }
     printer := some { indent := some "  ", preserveComments := some true }
     globals := some ["first"] },
    { printer := some { preserveComments := some false }, resolve := some false },
    { parser := some {}, globals := some ["second", "first"], resolve := some true }]

/-- The upper two of the three layers are merged first. -/
def upperFirst : Layering :=
  .stack (.single (threeLayers.getD 0 {}))
    (.stack (.single (threeLayers.getD 1 {})) (.single (threeLayers.getD 2 {})))

theorem threeLayers_merge :
    (∀ config ∈ threeLayers, config.isValid = true) ∧ upperFirst.layers = threeLayers ∧
      upperFirst.merged = threeLayers.foldl merge {} ∧ upperFirst.merged.isValid = true ∧
      upperFirst.merged.globals = some ["first", "second", "first"] := by
  have hvalid : ∀ config ∈ threeLayers, config.isValid = true := by decide
  have hmerged := merge_layers.2.2.2.2 threeLayers hvalid upperFirst rfl
  exact ⟨hvalid, rfl, hmerged.1, hmerged.2, rfl⟩

end Config

end EsFront
