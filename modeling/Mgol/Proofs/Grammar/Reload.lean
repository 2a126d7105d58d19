import Mgol.Grammar.Directory
import Mgol.Proofs.Disk.Files
import Mgol.Proofs.Grammar.Check
import Mgol.Proofs.Grammar.RuleText
import Mgol.Proofs.Grammar.TableText

/-! # Tables saved and loaded

Constructed tables that were saved to a directory are loaded from it as they were, with one
exception. A grammar whose rules all have the left side of the start rule has a goto table without
columns, which is written, and then refused.

* **`DecisionTables.StoredIn`, `DecisionTables.storedIn_of_save`** — a directory that holds tables.
* **`RuleSet.Writable`** — rules with names and numbers that can be written.
* **`RuleSet.Writable.actions`, `RuleSet.Writable.gotos`** — so can their tables.
* **`DecisionTables.load_save_iff`** — saved tables are loaded again exactly if there is a
  nonterminal other than the start. -/

namespace Mgol

/-! ## Files of a directory -/

namespace DecisionTables

variable {d d₀ : Disk} {dir : String}

/-- **A directory that holds tables**: its files have the texts that are written of them. -/
def StoredIn (t : DecisionTables) (d : Disk) (dir : String) : Prop :=
  ∀ f ∈ t.filesOf, d.readText (joinPath dir f.1) = .ok f.2

/-- Where the path of another file leads while files are written. -/
theorem find_saveFiles {files : List (String × String)}
    (hfiles : ∀ f ∈ files, Disk.IsFileName f.1) (hsave : saveFiles d₀ dir files = (.ok (), d))
    {file : String} (hfile : Disk.IsFileName file) (hother : file ∉ files.map Prod.fst)
    {name : List String} {entry : DiskEntry}
    (hfind : d₀.find (joinPath dir file) = .ok (.found name entry)) :
    d.find (joinPath dir file) = .ok (.found name entry) := by
  induction files generalizing d₀ with
  | nil =>
    obtain ⟨-, rfl⟩ := Prod.mk.inj hsave
    exact hfind
  | cons f files ih =>
    obtain ⟨hf, hfiles⟩ := List.forall_mem_cons.mp hfiles
    obtain ⟨hne, hother⟩ := List.ne_and_not_mem_of_not_mem_cons hother
    rw [saveFiles] at hsave
    split at hsave
    · cases hsave
    · next d₁ hwrite =>
      refine ih hfiles hsave hother (Disk.find_write_other hwrite hfind fun place hplace => ?_)
      -- the two names end in different pieces
      obtain ⟨parent, hname⟩ := Disk.name_of_find hfile hfind
      obtain ⟨parent', hname'⟩ := Disk.name_of_find hf hplace
      intro heq
      have hpieces : parent' ++ [f.1] = parent ++ [file] :=
        hname'.symm.trans (heq.trans hname)
      have hlast : [f.1] = [file] := List.append_inj_right' hpieces rfl
      exact hne (List.singleton_inj.mp hlast).symm

/-- **Files that were written hold their texts**, unless a device took them. -/
theorem readText_of_saveFiles {files : List (String × String)}
    (hfiles : ∀ f ∈ files, Disk.IsFileName f.1) (hnames : (files.map Prod.fst).Nodup)
    (hsave : saveFiles d₀ dir files = (.ok (), d))
    (hdevices : ∀ f ∈ files, d.device? (joinPath dir f.1) = none) :
    ∀ f ∈ files, d.readText (joinPath dir f.1) = .ok f.2 := by
  induction files generalizing d₀ with
  | nil => intro f hf; cases hf
  | cons f files ih =>
    obtain ⟨hfile, hfiles⟩ := List.forall_mem_cons.mp hfiles
    obtain ⟨hdevice, hdevices⟩ := List.forall_mem_cons.mp hdevices
    obtain ⟨hother, hnames⟩ := List.nodup_cons.mp hnames
    rw [saveFiles] at hsave
    split at hsave
    · cases hsave
    · next d₁ hwrite =>
      refine List.forall_mem_cons.mpr ⟨?_, ih hfiles hnames hsave hdevices⟩
      obtain ⟨name, hfound | ⟨kind, hfound⟩⟩ := Disk.find_write hwrite
      · have hfind := find_saveFiles hfiles hsave hfile hother hfound
        exact Disk.readText_of_find hfind
      · have hfind := find_saveFiles hfiles hsave hfile hother hfound
        rw [Disk.device?_of_find (Disk.endsWith_of_write hwrite) hfind] at hdevice
        cases hdevice

/-- The names of the files of a table directory. -/
theorem isFileName_of_mem {file : String}
    (h : file ∈ [TableName.actions.file, TableName.gotos.file, rulesFile]) :
    Disk.IsFileName file := by
  simp only [List.mem_cons, List.not_mem_nil, or_false] at h
  rcases h with rfl | rfl | rfl
  all_goals exact ⟨⟨by decide, by decide, by decide⟩, by decide⟩

/-- **Saved tables are stored in their directory**, unless a device took them. -/
theorem storedIn_of_save {t : DecisionTables} (hsave : t.save d₀ dir = (.ok (), d))
    (hdevices : ∀ f ∈ t.filesOf, d.device? (joinPath dir f.1) = none) : t.StoredIn d dir := by
  unfold save at hsave
  split at hsave
  · cases hsave
  · have hnames : t.filesOf.map Prod.fst =
        [TableName.actions.file, TableName.gotos.file, rulesFile] := rfl
    refine readText_of_saveFiles (fun f hf => isFileName_of_mem ?_) ?_ hsave hdevices
    · rw [← hnames]
      exact List.mem_map_of_mem hf
    · rw [hnames]
      decide

/-- What is read from a file. -/
theorem loadFile_eq {α : Type} {file text : String}
    (h : d.readText (joinPath dir file) = .ok text)
    (read : String → String → Except GrammarError α) :
    loadFile d dir file read = read text (joinPath dir file) := by
  simp only [loadFile, readFile, h]

/-- **What is loaded from a directory that holds tables.** -/
theorem load_eq {t : DecisionTables} (h : t.StoredIn d dir) :
    load d dir = (do
      let rules ← RuleSet.ofJson t.rules.json (joinPath dir rulesFile)
      let actions ← ActionTable.ofText (ActionTable.text t.actions)
        (joinPath dir TableName.actions.file)
      let gotos ← GotoTable.ofText (GotoTable.text t.gotos) (joinPath dir TableName.gotos.file)
      check { rules, actions, gotos }) := by
  have hactions := h (TableName.actions.file, ActionTable.text t.actions) (by simp [filesOf])
  have hgotos := h (TableName.gotos.file, GotoTable.text t.gotos) (by simp [filesOf])
  have hrules := h (rulesFile, t.rules.json) (by simp [filesOf])
  unfold load
  rw [loadFile_eq hrules, loadFile_eq hactions, loadFile_eq hgotos]

end DecisionTables

/-! ## Tables that can be written -/

namespace RuleSet

variable {g : RuleSet} {policy : ErrorPolicy} {built : SlrTables}

/-- **Rules that can be written**: no name has a blank at an end, a tab or a line feed, and no
number is too large. -/
structure Writable (g : RuleSet) : Prop where
  names : ∀ r ∈ g.rules, ∀ a ∈ r.left :: r.right, Grid.Neat a
  numbers : ∀ r ∈ g.rules, r.number ≤ Text.wordMax

/-- The symbols of rules that can be written. -/
theorem Writable.neat_symbol (h : g.Writable) {a : GrammarSymbol} (ha : a ∈ g.symbols) :
    Grid.Neat a := by
  rw [symbols, List.mem_eraseDups, List.mem_flatMap] at ha
  obtain ⟨r, hr, ha⟩ := ha
  exact h.names r hr a ha

/-- The moves of constructed tables can be written. -/
theorem Writable.bounded (h : g.Writable) {states : Nat} (hstates : states ≤ Text.wordMax)
    {a : Action} (ha : a.Fits g states) : a.Bounded := by
  cases a with
  | shift target => exact (Nat.le_of_lt ha).trans hstates
  | reduce n =>
    obtain ⟨r, hr⟩ := Option.isSome_iff_exists.mp ha
    obtain ⟨hmem, rfl⟩ := mem_of_get? hr
    exact h.numbers r hmem
  | accept => trivial
  | error slot =>
    obtain ⟨c, rfl⟩ := ha
    show c.number ≤ Text.slotMax
    cases c <;> decide

/-- **The action table of a grammar can be written.** -/
theorem Writable.actions (h : g.Writable) (hg : g.Numbered) (hbuilt : g.slrTables policy = .ok built)
    (hstates : built.actions.stateCount ≤ Text.wordMax) :
    built.actions.Writable Action.cell Action.ofCell := by
  have hfit := (fit_slrTables hg hbuilt).actions
  refine ⟨fun c hc => ?_, fun row hrow => ?_, fun row hrow x hx => ?_,
    Nat.le_succ_of_le hstates⟩
  · rw [hfit.columns_eq] at hc
    rcases List.mem_append.mp hc with hc | hc
    · exact h.neat_symbol (List.mem_filter.mp hc).1
    · rw [List.mem_singleton.mp hc]
      exact Grid.neat_of_forall (by simp [endMarker, Text.isBlank])
  · rw [hfit.columns_eq]
    exact hfit.width row hrow
  · have hsize : g.collection.kernels.size ≤ Text.wordMax := hfit.states_eq ▸ hstates
    exact Action.legible (h.bounded hsize (hfit.cells row hrow x hx))

/-- **The goto table of a grammar can be written.** -/
theorem Writable.gotos (h : g.Writable) (hg : g.Numbered) (hbuilt : g.slrTables policy = .ok built)
    (hstates : built.actions.stateCount ≤ Text.wordMax) :
    built.gotos.Writable toString GotoTable.readTarget := by
  have hfit := (fit_slrTables hg hbuilt).gotos
  have hsize : g.collection.kernels.size ≤ Text.wordMax :=
    (fit_slrTables hg hbuilt).actions.states_eq ▸ hstates
  refine ⟨fun c hc => ?_, fun row hrow => ?_, fun row hrow x hx => ?_, ?_⟩
  · rw [hfit.columns_eq] at hc
    exact h.neat_symbol (List.mem_filter.mp hc).1
  · rw [hfit.columns_eq]
    exact hfit.width row hrow
  · exact GotoTable.legible ((Nat.le_of_lt (hfit.cells row hrow x hx)).trans hsize)
  · rw [hfit.states_eq]
    exact Nat.le_succ_of_le hsize

/-- **The goto table has a column exactly if there is a nonterminal other than the start.** -/
theorem gotoColumns_ne_nil_iff : g.gotoColumns ≠ [] ↔ ∃ r ∈ g.rules, r.left ≠ g.start.left := by
  constructor
  · intro hne
    obtain ⟨a, ha⟩ := List.exists_mem_of_ne_nil _ hne
    obtain ⟨-, ha⟩ := List.mem_filter.mp ha
    simp only [Bool.and_eq_true, decide_eq_true_eq] at ha
    obtain ⟨r, hr, rfl⟩ := isNonterminal_iff.mp ha.1
    exact ⟨r, hr, ha.2⟩
  · rintro ⟨r, hr, hother⟩
    have hleft : r.left ∈ g.nonterminals := SymbolSet.mem_ofList.mpr
      (List.mem_filter.mpr ⟨List.mem_map_of_mem hr, by simpa using hother⟩)
    exact List.ne_nil_of_mem (mem_gotoColumns hleft)

end RuleSet

/-! ## Saving and loading -/

namespace DecisionTables

variable {g : RuleSet} {policy : ErrorPolicy} {built : SlrTables} {d d₀ : Disk} {dir : String}

/-- The rules and moves of stored tables are read back. -/
theorem load_of_storedIn {rules : List Rule} {origin : String}
    (hg : RuleSet.ofRules rules origin = .ok g) (hwritable : g.Writable)
    (hbuilt : g.slrTables policy = .ok built)
    (hstates : built.actions.stateCount ≤ Text.wordMax)
    (h : StoredIn ⟨g, built.actions, built.gotos⟩ d dir) :
    load d dir = (do
      let gotos ← GotoTable.ofText (GotoTable.text built.gotos) (joinPath dir TableName.gotos.file)
      check { rules := g, actions := built.actions, gotos }) := by
  have hnumbered := RuleSet.numbered_of_ofRules hg
  have hactions := hwritable.actions hnumbered hbuilt hstates
  have hcolumns := (RuleSet.fit_slrTables hnumbered hbuilt).actions.columns_eq
  have hend : endMarker ∈ built.actions.columns := by
    rw [hcolumns]
    exact List.mem_append_right _ List.mem_cons_self
  have hread : ActionTable.ofText (ActionTable.text built.actions)
      (joinPath dir TableName.actions.file) = .ok built.actions := by
    have hgrid := Grid.ofText_text hactions (List.ne_nil_of_mem hend)
      (joinPath dir TableName.actions.file)
    have hcontains : built.actions.hasColumn endMarker = true := by
      simpa [Grid.hasColumn] using hend
    simp only [ActionTable.ofText, ActionTable.text, hgrid, hcontains, if_true]
  rw [load_eq h, RuleSet.ofJson_json hg hwritable.numbers, hread]
  rfl

/-- **Saved tables are loaded again exactly if there is a nonterminal other than the start.** Where
the rules have names and numbers that can be written, and no device took a file, the loaded tables
are those that were saved, with all their rules, moves and targets. -/
theorem load_save_iff {rules : List Rule} {origin : String}
    (hg : RuleSet.ofRules rules origin = .ok g) (hwritable : g.Writable)
    (hbuilt : g.slrTables policy = .ok built)
    (hstates : built.actions.stateCount ≤ Text.wordMax)
    (hsave : save ⟨g, built.actions, built.gotos⟩ d₀ dir = (.ok (), d))
    (hdevices : ∀ f ∈ filesOf ⟨g, built.actions, built.gotos⟩,
      d.device? (joinPath dir f.1) = none) :
    load d dir = .ok ⟨g, built.actions, built.gotos⟩ ↔ ∃ r ∈ g.rules, r.left ≠ g.start.left := by
  have hnumbered := RuleSet.numbered_of_ofRules hg
  have hgotos := hwritable.gotos hnumbered hbuilt hstates
  have hcolumns := (RuleSet.fit_slrTables hnumbered hbuilt).gotos.columns_eq
  rw [load_of_storedIn hg hwritable hbuilt hstates (storedIn_of_save hsave hdevices),
    ← RuleSet.gotoColumns_ne_nil_iff, ← hcolumns]
  constructor
  · intro hload hnil
    rw [GotoTable.ofText, GotoTable.text, Grid.ofText_text_nil hgotos hnil] at hload
    cases hload
  · intro hne
    rw [GotoTable.ofText, GotoTable.text, Grid.ofText_text hgotos hne]
    exact RuleSet.check_slrTables hnumbered hbuilt

/-! ## Tables on an empty disk -/

/-- Files that are not there yet are written to the working directory. -/
theorem exists_saveFiles {files : List (String × String)}
    (hfiles : ∀ f ∈ files, f.1 ∈ [TableName.actions.file, TableName.gotos.file, rulesFile])
    (hnames : (files.map Prod.fst).Nodup) (hroot : d₀.workingDirectory = [])
    (hmissing : ∀ f ∈ files, d₀.get? [f.1] = none) :
    ∃ d, saveFiles d₀ "" files = (.ok (), d) ∧
      ∀ f ∈ files, d.device? (joinPath "" f.1) = none := by
  have hplain : ∀ file ∈ [TableName.actions.file, TableName.gotos.file, rulesFile],
      Disk.malformed? file = none ∧ file.startsWith "/" = false ∧ file.endsWith "/" = false ∧
        Disk.builtIn? [file] = none := by
    decide +kernel
  induction files generalizing d₀ with
  | nil => exact ⟨d₀, rfl, by simp⟩
  | cons f files ih =>
    obtain ⟨hfile, hfiles⟩ := List.forall_mem_cons.mp hfiles
    obtain ⟨hother, hnames⟩ := List.nodup_cons.mp hnames
    obtain ⟨hget, hmissing⟩ := List.forall_mem_cons.mp hmissing
    obtain ⟨hformed, hrelative, hslash, hbuilt⟩ := hplain f.1 hfile
    have hname := isFileName_of_mem hfile
    have hfind : d₀.find f.1 = .ok (.missing [f.1]) := by
      refine Disk.find_of_isFileName hname hformed hrelative ?_
      rw [hroot]
      exact .missing hname.toIsStep hget
    have hwrite := Disk.write_of_missing hslash hfind f.2.toUTF8
    have hlater : ∀ f' ∈ files, (d₀.put [f.1] (.file f.2.toUTF8)).get? [f'.1] = none := by
      intro f' hf'
      have hne : [f'.1] ≠ [f.1] := fun heq =>
        hother ((List.cons.inj heq).1 ▸ List.mem_map_of_mem hf')
      rw [Disk.get?_put hbuilt, if_neg hne, hmissing f' hf']
    have hroot' : (d₀.put [f.1] (.file f.2.toUTF8)).workingDirectory = [] := hroot
    obtain ⟨d, hsave, hdevices⟩ := ih hfiles hnames hroot' hlater
    refine ⟨d, ?_, List.forall_mem_cons.mpr ⟨?_, hdevices⟩⟩
    · rw [saveFiles, show joinPath "" f.1 = f.1 from rfl, hwrite]
      exact hsave
    · have hput := Disk.find_put (.missing [f.1]) hfind f.2.toUTF8 hfind
      rw [Disk.Place.Free.after_eq (.missing [f.1])] at hput
      have hfound := find_saveFiles (fun f' hf' => isFileName_of_mem (hfiles f' hf')) hsave hname
        hother hput
      exact Disk.device?_eq_none hslash hfound

/-- **On an empty disk all tables can be saved.** -/
theorem exists_save (t : DecisionTables) :
    ∃ d, t.save {} "" = (.ok (), d) ∧ ∀ f ∈ t.filesOf, d.device? (joinPath "" f.1) = none := by
  have hnames : t.filesOf.map Prod.fst =
      [TableName.actions.file, TableName.gotos.file, rulesFile] := rfl
  have hmissing : ∀ file ∈ [TableName.actions.file, TableName.gotos.file, rulesFile],
      Disk.builtIn? [file] = none := by decide +kernel
  have hfiles : ∀ f ∈ t.filesOf, f.1 ∈ [TableName.actions.file, TableName.gotos.file, rulesFile] :=
    fun f hf => hnames ▸ List.mem_map_of_mem hf
  refine exists_saveFiles hfiles (by rw [hnames]; decide) rfl fun f hf => ?_
  simp [Disk.get?, hmissing f.1 (hfiles f hf)]

/-- Rules without blanks and with small numbers have tables that can be written and saved. -/
theorem exists_saved (hg : g.Numbered) (hok : (g.slrTables .uniform).toBool = true)
    (hnames : ∀ r ∈ g.rules, ∀ a ∈ r.left :: r.right, a.toList.any Text.isBlank = false)
    (hnumbers : ∀ r ∈ g.rules, r.number ≤ Text.wordMax)
    (hsize : g.collection.kernels.size ≤ Text.wordMax) :
    g.Writable ∧ ∃ built d, g.slrTables .uniform = .ok built ∧
      built.actions.stateCount ≤ Text.wordMax ∧
      save ⟨g, built.actions, built.gotos⟩ {} "" = (.ok (), d) ∧
      ∀ f ∈ filesOf ⟨g, built.actions, built.gotos⟩, d.device? (joinPath "" f.1) = none := by
  have hneat : ∀ r ∈ g.rules, ∀ a ∈ r.left :: r.right, Grid.Neat a := fun r hr a ha =>
    Grid.neat_of_forall (by simpa using hnames r hr a ha)
  refine ⟨⟨hneat, hnumbers⟩, ?_⟩
  cases hslr : g.slrTables .uniform with
  | error e =>
    rw [hslr] at hok
    cases hok
  | ok built =>
    have hstates : built.actions.stateCount = g.collection.kernels.size :=
      (RuleSet.fit_slrTables hg hslr).actions.states_eq
    obtain ⟨d, hsave, hdevices⟩ := exists_save ⟨g, built.actions, built.gotos⟩
    exact ⟨built, d, rfl, hstates ▸ hsize, hsave, hdevices⟩

/-- The tables of a single name are loaded again. -/
theorem load_save_iff_name :
    ∃ g built d, RuleSet.ofRules [⟨1, "S", ["A"]⟩, ⟨2, "A", ["id"]⟩] "names" = .ok g ∧
      g.slrTables .uniform = .ok built ∧
      save ⟨g, built.actions, built.gotos⟩ {} "" = (.ok (), d) ∧
      load d "" = .ok ⟨g, built.actions, built.gotos⟩ := by
  let g : RuleSet := ⟨⟨1, "S", ["A"]⟩, [⟨2, "A", ["id"]⟩]⟩
  have hg : RuleSet.ofRules [⟨1, "S", ["A"]⟩, ⟨2, "A", ["id"]⟩] "names" = .ok g := by rfl
  obtain ⟨hwritable, built, d, hbuilt, hstates, hsave, hdevices⟩ :=
    exists_saved (RuleSet.numbered_of_ofRules hg) (by decide +kernel) (by decide) (by decide)
      (by decide +kernel)
  refine ⟨g, built, d, hg, hbuilt, hsave, ?_⟩
  exact (load_save_iff hg hwritable hbuilt hstates hsave hdevices).mpr
    ⟨⟨2, "A", ["id"]⟩, by decide, by decide⟩

/-- **Tables can be saved that are then refused**: those of a grammar with one rule, which leaves
no column for a goto table. -/
theorem saved_tables_refused :
    ∃ g built d, RuleSet.ofRules [⟨1, "S", ["id"]⟩] "names" = .ok g ∧
      g.slrTables .uniform = .ok built ∧
      save ⟨g, built.actions, built.gotos⟩ {} "" = (.ok (), d) ∧
      load d "" = .error (.tableFormat "goto_table.tsv" 1 .noColumns) := by
  let g : RuleSet := ⟨⟨1, "S", ["id"]⟩, []⟩
  have hg : RuleSet.ofRules [⟨1, "S", ["id"]⟩] "names" = .ok g := by rfl
  have hnumbered := RuleSet.numbered_of_ofRules hg
  obtain ⟨hwritable, built, d, hbuilt, hstates, hsave, hdevices⟩ :=
    exists_saved hnumbered (by decide +kernel) (by decide) (by decide) (by decide +kernel)
  refine ⟨g, built, d, hg, hbuilt, hsave, ?_⟩
  have hcolumns : built.gotos.columns = [] :=
    (RuleSet.fit_slrTables hnumbered hbuilt).gotos.columns_eq.trans (by decide +kernel)
  rw [load_of_storedIn hg hwritable hbuilt hstates (storedIn_of_save hsave hdevices),
    GotoTable.ofText, GotoTable.text,
    Grid.ofText_text_nil (hwritable.gotos hnumbered hbuilt hstates) hcolumns]
  rfl

end DecisionTables

end Mgol
