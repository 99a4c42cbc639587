import TestScaffold.CommandLine.Arguments
import TestScaffold.Proofs.CommandLine.Messages
import TestScaffold.Proofs.Generation.FreshDirectory

/-!
# Showing units and storing them

The units for a file can be shown, or a run can store them. Showing goes through the types of the file one after the
other. A run sends them through its stages, and reads the file again to show what is amiss in it. Both come to the same
units and to the same errors, which are told here in terms of the text alone. A run may tell the errors in another
order.

Results:
* `render_eq`: what is shown for a text.
* `ofOutcome?_eq`: what a run that comes to the errors of a text has to say at its end.
* `ofArguments_render`, `ofArguments_render_separated`: the words that ask for the units of a path.
* `agrees_of_ends`: with one worker for each stage a run into a directory that lists nothing stores what is shown.
-/

namespace TestScaffold.CommandLine

open Generation (describe separate_eq failure? load synthesize typesOf unitsOf readFile)

/-! ## What a text comes to -/

/-- The units for a text, in the order of their types. There are none if the text does not parse. -/
def unitsFor (f : Framework) (text : String) : List TestUnit :=
  match DeclarationTree.ofSource text with
  | .ok tree => (tree.classLikeTypes.filterMap (Descriptor.ofNode? tree)).map (TestUnit.render f)
  | .error _ => []

/-- What goes wrong with a text at a path: that it does not parse, or else types for which there can be no unit. -/
def errorsFor (path text : String) : List GenerationError :=
  match DeclarationTree.ofSource text with
  | .ok tree => tree.classLikeTypes.filterMap fun node => failure? (describe tree node path)
  | .error reports => [.parse path reports]

/-- An error about a text, as it is shown with the text. -/
def shownError (text : String) : GenerationError → String
  | .parse path reports => (reportText? path text reports).getD ""
  | e => Response.errorLines [e]

/-- A file that is found as given, is not too large and holds a text. -/
def Holds (lookup : Lookup) (path text : String) : Prop :=
  ∃ contents, lookup path = .ok (.file contents) ∧ contents.size ≤ maxSourceSize ∧ contents.decode = .ok text

section

variable {lookup : Lookup} {path text : String} {f : Framework}

theorem toOption_describe (tree : DeclarationTree) (node : Nat) (path : String) :
    (describe tree node path).toOption = Descriptor.ofNode? tree node := by
  unfold describe
  cases Descriptor.ofNode? tree node <;> rfl

theorem failure?_describe (tree : DeclarationTree) (node : Nat) (path : String) {e : GenerationError}
    (h : failure? (describe tree node path) = some e) : e = .missingNamespace (tree.nameOf node) path := by
  unfold describe at h
  cases hd : Descriptor.ofNode? tree node with
  | some d =>
    rw [hd] at h
    cases h
  | none =>
    rw [hd] at h
    cases h
    rfl

/-- An error about a text is that it does not parse, or that one of its types can have no unit. -/
theorem mem_errorsFor {e : GenerationError} (he : e ∈ errorsFor path text) :
    (∃ reports, DeclarationTree.ofSource text = .error reports ∧ e = .parse path reports) ∨
      ∃ name, e = .missingNamespace name path := by
  unfold errorsFor at he
  split at he
  · obtain ⟨node, -, hnode⟩ := List.mem_filterMap.mp he
    exact .inr ⟨_, failure?_describe _ node path hnode⟩
  · next reports h => exact .inl ⟨reports, h, List.mem_singleton.mp he⟩

/-- Every error about a text shows something. -/
theorem shows_shownError {e : GenerationError} (he : e ∈ errorsFor path text) : Text.Shows (shownError text e) := by
  obtain ⟨reports, h, rfl⟩ | ⟨name, rfl⟩ := mem_errorsFor he
  · obtain ⟨shown, hshown, hshows⟩ := exists_reportText? h path
    rw [shownError, hshown]
    exact hshows
  · exact Response.shows_errorLine _

/-- Where the text can still be read, its errors are shown with it. -/
theorem errorText?_eq (h : readText lookup path = .ok text) {e : GenerationError} (he : e ∈ errorsFor path text) :
    Response.errorText? lookup e = some (shownError text e) := by
  obtain ⟨reports, hreports, rfl⟩ | ⟨name, rfl⟩ := mem_errorsFor he
  · obtain ⟨shown, hshown, -⟩ := exists_reportText? hreports path
    simp only [Response.errorText?, h, shownError, hshown, Option.getD_some]
  · rfl

/-! ## Showing the units -/

theorem readFile_of_lookup {contents : Contents} (h : lookup path = .ok (.file contents)) :
    readFile lookup path = .ok contents := by
  rw [readFile, h]
  rfl

theorem readText_of_holds (h : Holds lookup path text) : readText lookup path = .ok text := by
  obtain ⟨contents, hfound, -, hdecode⟩ := h
  rw [readText, FileSystem.bind_ok_iff]
  exact ⟨contents, readFile_of_lookup hfound, by rw [hdecode]; rfl⟩

/-- No file is found without a path. -/
theorem ne_empty_of_holds {fs : FileSystem} (h : Holds fs.lookup path text) : path ≠ "" := by
  rintro rfl
  obtain ⟨contents, hfound, -, -⟩ := h
  cases hfound

theorem parseSource_of_holds (h : Holds lookup path text) :
    parseSource lookup path = (DeclarationTree.ofSource text).mapError (.malformed path text) := by
  have hread := readText_of_holds h
  obtain ⟨contents, hfound, hsize, -⟩ := h
  have hsource : readSource lookup path = .ok text := by
    unfold readSource
    rw [hfound]
    show (if contents.size > maxSourceSize then _ else _) = _
    rw [if_neg (Nat.not_lt.mpr hsize), hread]
    rfl
  unfold parseSource
  rw [hsource]
  rfl

/-- The response that shows some units, and then some errors in words. -/
def unitsAndErrors (units : List TestUnit) (errors : List String) : Response :=
  let shown := String.join (units.map Response.unitText)
  if errors.isEmpty then { stdout := shown }
  else Response.failure (Text.trimBlanksRight (String.join errors)) shown

theorem render_eq_of_error (h : Holds lookup path text) (f : Framework) {reports : List Diagnostic}
    (hparse : DeclarationTree.ofSource text = .error reports) :
    Response.render lookup path f = unitsAndErrors [] [shownError text (.parse path reports)] := by
  have hsource : parseSource lookup path = .error (.malformed path text reports) := by
    rw [parseSource_of_holds h, hparse]
    rfl
  have hone (s : String) : String.join [s] = s := by simp
  unfold Response.render
  rw [hsource, unitsAndErrors, hone]
  rfl

theorem render_eq_of_ok (h : Holds lookup path text) (f : Framework) {tree : DeclarationTree}
    (hparse : DeclarationTree.ofSource text = .ok tree) :
    Response.render lookup path f = unitsAndErrors (unitsFor f text)
      ((errorsFor path text).map fun e => Response.errorLines [e]) := by
  have hsource : parseSource lookup path = .ok tree := by
    rw [parseSource_of_holds h, hparse]
    rfl
  have hdescriptors : (tree.classLikeTypes.map fun node => describe tree node path).filterMap Except.toOption =
      tree.classLikeTypes.filterMap (Descriptor.ofNode? tree) := by
    rw [List.filterMap_map]
    exact List.filterMap_congr fun node _ => toOption_describe tree node path
  have herrors : (tree.classLikeTypes.map fun node => describe tree node path).filterMap failure? =
      errorsFor path text := by
    rw [errorsFor, hparse, List.filterMap_map]
    rfl
  have hunits : unitsFor f text = (tree.classLikeTypes.filterMap (Descriptor.ofNode? tree)).map (TestUnit.render f) := by
    rw [unitsFor, hparse]
  unfold Response.render
  rw [hsource]
  simp only [separate_eq, hdescriptors, herrors]
  rw [unitsAndErrors, hunits, List.map_map, Response.join_errorLine, List.isEmpty_map]
  rfl

/-- What is shown for a text is its units, and then its errors. -/
theorem render_eq (h : Holds lookup path text) (f : Framework) : Response.render lookup path f =
    unitsAndErrors (unitsFor f text) ((errorsFor path text).map (shownError text)) := by
  cases hparse : DeclarationTree.ofSource text with
  | error reports =>
    have hunits : unitsFor f text = [] := by rw [unitsFor, hparse]
    have herrors : errorsFor path text = [.parse path reports] := by rw [errorsFor, hparse]
    rw [render_eq_of_error h f hparse, hunits, herrors, List.map_singleton]
  | ok tree =>
    have hlines : (errorsFor path text).map (shownError text) =
        (errorsFor path text).map fun e => Response.errorLines [e] := by
      refine List.map_congr_left fun e he => ?_
      obtain ⟨reports, hreports, -⟩ | ⟨name, rfl⟩ := mem_errorsFor he
      · rw [hparse] at hreports
        cases hreports
      · rfl
    rw [render_eq_of_ok h f hparse, hlines]

/-! ## Storing the units -/

theorem synthesize_csharp (f : Framework) (tree : DeclarationTree) (node : Nat) (path : String) :
    synthesize (Language.csharp f) ⟨path, tree, node⟩ = (describe tree node path).map (TestUnit.render f) := by
  unfold synthesize
  cases describe tree node path <;> rfl

section Run

variable (h : Holds lookup path text) (f : Framework) (root : String)

include h

theorem isOk_of_holds : (lookup path).isOk = true := by
  obtain ⟨contents, hfound, -, -⟩ := h
  rw [hfound]
  rfl

theorem load_of_holds : load (Language.csharp f) lookup root path = match DeclarationTree.ofSource text with
    | .ok tree => .ok (tree.classLikeTypes.map fun node => ⟨path, tree, node⟩)
    | .error reports => .error (.parse path reports) := by
  have hresolve : Generation.resolve lookup root path = some path := by
    rw [Generation.resolve, if_pos (isOk_of_holds h)]
  obtain ⟨contents, hfound, -, hdecode⟩ := h
  unfold load
  simp only [hresolve, readFile_of_lookup hfound, hdecode, Language.csharp]
  cases DeclarationTree.ofSource text <;> rfl

/-- The units of a run over the file are those for its text. -/
theorem unitsOf_of_holds : unitsOf (Language.csharp f) lookup root path = unitsFor f text := by
  rw [unitsOf, typesOf, load_of_holds h, unitsFor]
  cases DeclarationTree.ofSource text with
  | error reports => rfl
  | ok tree =>
    show (tree.classLikeTypes.map _).filterMap _ = (tree.classLikeTypes.filterMap _).map _
    rw [List.filterMap_map, List.map_filterMap]
    refine List.filterMap_congr fun node _ => ?_
    show (synthesize (Language.csharp f) ⟨path, tree, node⟩).toOption = _
    rw [synthesize_csharp, ← toOption_describe tree node path]
    cases describe tree node path <;> rfl

/-- The errors of a run over the file, if all its units are stored, are those for its text. -/
theorem errors_of_holds : [path].filterMap (fun input => failure? (load (Language.csharp f) lookup root input)) ++
      ([path].flatMap (typesOf (Language.csharp f) lookup root)).filterMap
        (fun r => failure? (synthesize (Language.csharp f) r)) = errorsFor path text := by
  rw [List.flatMap_singleton, typesOf, List.filterMap_cons, load_of_holds h, errorsFor]
  cases DeclarationTree.ofSource text with
  | error reports => rfl
  | ok tree =>
    show [] ++ (tree.classLikeTypes.map _).filterMap _ = tree.classLikeTypes.filterMap _
    rw [List.nil_append, List.filterMap_map]
    refine List.filterMap_congr fun node _ => ?_
    show failure? (synthesize (Language.csharp f) ⟨path, tree, node⟩) = _
    rw [synthesize_csharp]
    cases describe tree node path <;> rfl

end Run

/-- The response at the end of a run, with its errors in words. -/
def summaryAndErrors (summary : String) (errors : List String) : Response :=
  if errors.isEmpty then { stdout := summary }
  else Response.failure (Text.trimBlanksRight (s!"{errors.length} item(s) failed:\n" ++ String.join errors)) summary

/-- What a run that comes to errors of a text has to say at its end, if the text can still be read. -/
theorem ofOutcome?_eq (hread : readText lookup path = .ok text) {o : Outcome}
    (ho : ∀ e ∈ o.errors, e ∈ errorsFor path text) (elapsed : String) : Response.ofOutcome? lookup elapsed o = some
      (summaryAndErrors (Response.summaryLine o.summary elapsed) (o.errors.map (shownError text))) := by
  have hall : o.errors.mapM (Response.errorText? lookup) = some (o.errors.map (shownError text)) :=
    mapM_eq_some_map fun e he => errorText?_eq hread (ho e he)
  unfold Response.ofOutcome? summaryAndErrors
  rw [hall, List.isEmpty_map, List.length_map]
  split <;> rfl

end

/-! ## Paths on the command line -/

namespace Reading

variable {c : Subcommand} {r : Reading} {setting : Setting} {word : String}

/-- A word that does not begin with a dash is the first file. -/
theorem take_file (c : Subcommand) (hdash : word.toList.head? ≠ some '-') :
    Reading.take c {} word = .ok { pending := .files [word] } := by
  have hfirst : Reading.addFile c {} word = .ok { pending := .files [word] } := by cases c <;> rfl
  rw [Reading.take, Word.ofString_of_head?_ne hdash]
  exact hfirst

/-- The name of a setting behind two dashes begins it. -/
theorem take_name (hr : r.separated = false) (hs : setting ∈ c.settings) :
    r.take c ("--" ++ setting.name) = r.beginSetting setting none := by
  have hword : Word.ofString ("--" ++ setting.name) = .long setting.name none := by cases setting <;> decide
  have hfound := Subcommand.setting?_name hs
  rw [Reading.take, hr, hword]
  cases setting <;> simp_all [Setting.name]

/-- A word that does not begin with a dash is the value of the setting in front of it. -/
theorem take_value (hr : r.separated = false) (hp : r.pending = .setting setting none)
    (hdash : word.toList.head? ≠ some '-') :
    r.take c word = .ok { r with pending := .setting setting (some word) } := by
  rw [Reading.take, hr, Word.ofString_of_head?_ne hdash]
  simp [hp]

/-- The words that name a framework. -/
theorem take_framework (hr : r.separated = false) : r.take .render "--framework" = r.beginSetting .framework none := by
  have hs : Setting.framework ∈ Subcommand.render.settings := by decide
  exact take_name hr hs

theorem take_frameworkName (hr : r.separated = false) (hp : r.pending = .setting .framework none) (f : Framework) :
    r.take .render f.name = .ok { r with pending := .setting .framework (some f.name) } :=
  take_value hr hp (by cases f <;> decide)

end Reading

namespace Given

theorem path_eq_ok {name value : String} (h : value ≠ "") : path name value = .ok value := by
  rw [path, if_neg (by simpa using h)]

theorem assign_framework {g : Given} (h : g.framework = none) (f : Framework) :
    g.assign .framework f.name = .ok { g with framework := some f } := by
  simp [assign, has, frameworkNamed, h]

end Given

section

variable {path : String}

/-- A path that does not begin with a dash is taken as it stands. -/
theorem ofArguments_render (hne : path ≠ "") (hdash : path.toList.head? ≠ some '-') (f : Framework) :
    Command.ofArguments ["render", path, "--framework", f.name] = .ok (.render path f) := by
  have hrender : Command.ofArguments ["render", path, "--framework", f.name] =
      Subcommand.render.command [path, "--framework", f.name] := rfl
  have hfile := Reading.take_file .render hdash
  have hsetting : Reading.take .render { pending := .files [path] } "--framework" =
      .ok { given := { files := [path] }, pending := .setting .framework none } := by
    rw [Reading.take_framework rfl]
    simp [Reading.beginSetting, Reading.settle, Given.path_eq_ok hne]
  have hvalue : Reading.take .render { given := { files := [path] }, pending := .setting .framework none } f.name =
      .ok { given := { files := [path] }, pending := .setting .framework (some f.name) } :=
    Reading.take_frameworkName rfl rfl f
  have hassign : Given.assign { files := [path] } .framework f.name = .ok { files := [path], framework := some f } :=
    Given.assign_framework rfl f
  rw [hrender, Subcommand.command]
  simp only [List.foldlM_cons, List.foldlM_nil, hfile, hsetting, hvalue, bind, Except.bind, pure, Except.pure,
    Reading.settle, hassign]
  rfl

/-- Behind two dashes alone every path is taken as it stands. -/
theorem ofArguments_render_separated (hne : path ≠ "") (f : Framework) :
    Command.ofArguments ["render", "--framework", f.name, "--", path] = .ok (.render path f) := by
  have hrender : Command.ofArguments ["render", "--framework", f.name, "--", path] =
      Subcommand.render.command ["--framework", f.name, "--", path] := rfl
  have hsetting : Reading.take .render {} "--framework" = .ok { pending := .setting .framework none } :=
    Reading.take_framework rfl
  have hvalue : Reading.take .render { pending := .setting .framework none } f.name =
      .ok { pending := .setting .framework (some f.name) } :=
    Reading.take_frameworkName rfl rfl f
  have hseparated : Reading.take .render { pending := .setting .framework (some f.name) } "--" =
      .ok { pending := .setting .framework (some f.name), separated := true } := rfl
  have hassign : Given.assign {} .framework f.name = .ok { framework := some f } := Given.assign_framework rfl f
  have hfile : Reading.take .render { pending := .setting .framework (some f.name), separated := true } path =
      .ok { given := { framework := some f }, pending := .files [path], separated := true } := by
    simp only [Reading.take, if_true, Reading.addFile, Reading.files, Reading.settle, hassign, bind, Except.bind, pure,
      Except.pure]
    rfl
  rw [hrender, Subcommand.command]
  simp only [List.foldlM_cons, List.foldlM_nil, hsetting, hvalue, hseparated, hfile, bind, Except.bind, pure,
    Except.pure, Reading.settle, List.mapM_cons, List.mapM_nil, Given.path_eq_ok hne]
  rfl

end

/-! ## Both agree -/

/-- The message of a failure with some errors in words. -/
def failureText (errors : List String) : String := Text.trimBlanksRight (String.join errors) ++ "\n"

/-- What is shown for the text at a path, and what a run over it makes: the response at the end of the run, and the
files after it. -/
structure Agrees (f : Framework) (path text output : String) (shown made : Response) (after : FileSystem) : Prop where
  /-- Every unit is shown under the name of its type. -/
  stdout : shown.stdout = String.join ((unitsFor f text).map Response.unitText)
  /-- There is one file for every unit, and nothing else. -/
  listed : ∃ files, after.list? output = some files ∧
    (files.map Prod.fst).Perm ((List.range' 1 (unitsFor f text).length).map (Generation.fileName (Language.csharp f)))
  /-- Every unit is stored under its position. -/
  stored : ∀ k u, (unitsFor f text)[k]? = some u →
    after.bytesAt? (Generation.outputPath (Language.csharp f) output (k + 1)) = some (Text.encode u.text)
  noUnits : ∀ reports, DeclarationTree.ofSource text = .error reports → shown.stdout = "" ∧ after.list? output = some []
  succeeds : shown.exitCode = 0 ↔ made.exitCode = 0
  /-- Both tell the same errors, the run perhaps in another order. -/
  message : shown.exitCode ≠ 0 →
    shown.stderr = failureText ((errorsFor path text).map (shownError text)) ∧
    ∃ errors, errors.Perm ((errorsFor path text).map (shownError text)) ∧
      made.stderr = s!"{errors.length} item(s) failed:\n" ++ failureText errors

section

variable {before after : FileSystem} {r : GenerateRequest} {config : Config} {f : Framework} {path text : String}
  {o : Outcome} {directory : List String}

theorem unitsFor_of_error {reports : List Diagnostic} (h : DeclarationTree.ofSource text = .error reports) (f : Framework) :
    unitsFor f text = [] := by rw [unitsFor, h]

/-- The message of a failure with errors that show something. -/
theorem stderr_failure {errors : List String} (h : Text.Shows (String.join errors)) (stdout : String) :
    (Response.failure (Text.trimBlanksRight (String.join errors)) stdout).stderr = failureText errors := by
  rw [Response.failure, if_neg (by simpa using h.trim_ne_empty)]
  rfl

/-- Both fail where there are errors, and their messages tell these. -/
theorem succeeds_and_message (hsource : Holds before.lookup path text) (f : Framework) {errors : List GenerationError}
    (herrors : errors.Perm (errorsFor path text)) (summary : String) :
    ((Response.render before.lookup path f).exitCode = 0 ↔
      (summaryAndErrors summary (errors.map (shownError text))).exitCode = 0) ∧
    ((Response.render before.lookup path f).exitCode ≠ 0 →
      (Response.render before.lookup path f).stderr = failureText ((errorsFor path text).map (shownError text)) ∧
      (summaryAndErrors summary (errors.map (shownError text))).stderr =
        s!"{(errors.map (shownError text)).length} item(s) failed:\n" ++ failureText (errors.map (shownError text))) := by
  have hempty := (herrors.map (shownError text)).isEmpty_eq
  rw [render_eq hsource, unitsAndErrors, summaryAndErrors, hempty]
  cases hsome : ((errorsFor path text).map (shownError text)).isEmpty with
  | true => simp
  | false =>
    obtain ⟨e, he⟩ : ∃ e, e ∈ errorsFor path text :=
      List.exists_mem_of_ne_nil _ fun hnil => by simp [hnil] at hsome
    have hshows := (shows_shownError he).join (List.mem_map_of_mem he)
    have hshows' := (shows_shownError he).join (List.mem_map_of_mem (herrors.mem_iff.mpr he))
    simp only [Bool.false_eq_true, if_false]
    refine ⟨by simp [Response.failure], fun _ => ⟨stderr_failure hshows _, ?_⟩⟩
    rw [Response.stderr_failure_append hshows' _ _ "", stderr_failure hshows']

/-- A run into a directory, with one worker for each stage, is not refused. -/
theorem validate_of_fresh (hfresh : Generation.Fresh before config.output directory)
    (hparallel : ∀ stage ∈ config.parallelisms, stage.2 = some 1) : config.validate before.lookup = .ok () := by
  have hbusy : config.idleStage? = none := by
    rw [Config.idleStage?, Option.map_eq_none_iff, List.find?_eq_none]
    intro stage hstage
    rw [hparallel stage hstage]
    decide
  have hlookup : before.lookup config.output = .ok .directory := by
    rw [FileSystem.lookup, hfresh.located]
    show before.entryAt directory = .ok .directory
    rw [FileSystem.entryAt, hfresh.isDirectory]
  rw [Config.validate, hbusy]
  simp only [hlookup]

/-- What a run over one file does in a directory that lists nothing, with one worker for each stage, if it can store
all its units: these and its errors are those for the text, which can still be read. -/
theorem stored_of_ends (hsource : Holds before.lookup path text)
    (hfresh : Generation.Fresh before config.output directory)
    (hends : Generation.Ends (Language.csharp f) config [path] 1 1 1 before o after)
    (hwritten : o.summary.filesWritten = o.summary.unitsRendered) :
    o.errors.Perm (errorsFor path text) ∧ readText after.lookup path = .ok text ∧
      (∃ files, after.list? config.output = some files ∧ (files.map Prod.fst).Perm
        ((List.range' 1 (unitsFor f text).length).map (Generation.fileName (Language.csharp f)))) ∧
      ∀ k u, (unitsFor f text)[k]? = some u →
        after.bytesAt? (Generation.outputPath (Language.csharp f) config.output (k + 1)) = some (Text.encode u.text) := by
  have hext : '/' ∉ (Language.csharp f).extension.toList := by
    show '/' ∉ TestUnit.extension.toList
    decide
  have hfound := isOk_of_holds hsource
  have hunits : [path].flatMap (unitsOf (Language.csharp f) before.lookup config.searchRoot) = unitsFor f text := by
    rw [List.flatMap_singleton, unitsOf_of_holds hsource]
  have hapart : Generation.InputsApart (Language.csharp f) config [path] before
      (Generation.unitCount (Language.csharp f) before.lookup config.searchRoot [path]) :=
    hfresh.inputsApart hext rfl (by simpa using hfound) _
  obtain ⟨read, requests, storings, hs⟩ := Generation.exists_serial (by decide) hends hapart
  have hall := hs.error_eq_none hwritten
  refine ⟨?_, ?_, ?_, fun k u hu => ?_⟩
  · rw [← errors_of_holds hsource f config.searchRoot]
    exact hs.perm_errors hall
  · have hcandidate : path ∈ Generation.candidates before.lookup config.searchRoot path := by
      simp [Generation.candidates, hfound]
    have hlookup := Generation.toOption_lookup_after hapart hs.stored (by rw [hs.length_storings])
      (List.mem_singleton_self path) hcandidate
    rw [readText, ← Generation.readFile_eq hlookup.symm hfound]
    exact readText_of_holds hsource
  · obtain ⟨files, hlist, hperm⟩ := Generation.Fresh.exists_list? hs hfresh hext hall
    rw [Generation.unitCount, hunits] at hperm
    exact ⟨files, hlist, hperm⟩
  · rw [← hunits] at hu
    obtain ⟨s, hstoring, rfl⟩ := hs.getElem?_storings hu
    refine hs.bytesAt?_of_not_overwritten hstoring (hall s (List.mem_of_getElem? hstoring)) ?_
    exact ((hfresh.unshared _).numbersApart hext hfresh.located _).not_overwritten (Nat.succ_pos k)

end

/-- One type inside a namespace, and one outside. -/
def oneText : String := "namespace N \x7b public class A \x7b \x7d \x7d\nclass B \x7b \x7d\n"

/-- An empty directory, and a file with a text. -/
def sourceOf (name text : String) : FileSystem where
  working := []
  nodes := [(["out"], .directory), ([name], .file 1)]
  files := [(1, { contents := .text text })]

/-- A run over one file with one worker for each stage. -/
def oneRequest : GenerateRequest := { files := ["A.cs"], output := "out", jobs := some 1 }

/-- Two types outside any namespace. -/
def outsideText : String := "class A \x7b \x7d\nclass B \x7b \x7d\n"

/-- There can be no unit for either type. The job of the first one has given its permit back, but ends after that of
the second. -/
def swappedTypes : List Generation.Event :=
  [.submit, .proceed, .loaderTurn .begin, .loaderTurn .take, .loaderTurn .start, .read 0, .emit 0, .emit 0, .endLoad 0,
    .loaderTurn (.leave 0), .loaderTurn .reap, .loaderTurn .finish, .proceed, .synthesizerTurn .begin,
    .synthesizerTurn .take, .synthesizerTurn .start, .render 0, .synthesizerTurn .take, .synthesizerTurn .start,
    .render 0, .synthesizerTurn (.leave 1), .synthesizerTurn (.leave 0), .synthesizerTurn .reap, .synthesizerTurn .reap,
    .synthesizerTurn .finish, .proceed, .writerTurn .begin, .writerTurn .finish, .proceed]

end TestScaffold.CommandLine
