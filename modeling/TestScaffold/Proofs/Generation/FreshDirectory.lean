import TestScaffold.Proofs.Files.Listing
import TestScaffold.Proofs.Generation.Sequential

/-!
# Runs into a fresh directory

Where the output directory lists nothing, no input can be looked for below it, and no numbered entry can be a link or
share its file. After the run it lists the files of the units that have been stored, and nothing else.

Results:
* `Fresh.inputsApart`: no input is looked for where a unit is stored.
* `Fresh.perm_names`: what the directory lists when all units have been stored.
* `Fresh.exists_list?`: these are as many files as there are units.
-/

namespace TestScaffold.Generation

variable {lang : Language} {before after fs : FileSystem} {output : String} {directory : List String} {one : Prop}
  {storings : List Storing}

/-- The output directory lists nothing. -/
structure Fresh (fs : FileSystem) (output : String) (directory : List String) : Prop where
  located : fs.locate false output = .ok directory
  isDirectory : fs.node? directory = some .directory
  empty : fs.list directory = []

theorem exists_fresh (h : fs.list? output = some []) : ∃ directory, Fresh fs output directory := by
  obtain ⟨directory, hbase, hdirectory, hempty⟩ := FileSystem.list?_eq_some_iff.mp h
  exact ⟨directory, hbase, hdirectory, hempty.symm⟩

/-- The file of a number. -/
def fileName (lang : Language) (id : Nat) : String := s!"{id}.{lang.extension}"

namespace Fresh

/-- What is not there is no link, and shares no file. -/
theorem unshared (h : Fresh fs output directory) (lang : Language) : Unshared lang fs directory := by
  have hnone (id : Nat) : fs.node? (entryOf lang directory id) = none := FileSystem.node?_of_list_eq_nil h.empty _
  refine ⟨fun id target hnode => ?_, fun id names number hnode => ?_⟩ <;>
  · rw [hnone] at hnode
    cases hnode

/-- Inputs that are found as given are not looked for where a unit is stored. -/
theorem inputsApart (h : Fresh before output directory) (hext : '/' ∉ lang.extension.toList) {config : Config}
    (houtput : config.output = output) {inputs : List String}
    (hinputs : ∀ input ∈ inputs, (before.lookup input).isOk = true) (count : Nat) :
    InputsApart lang config inputs before count := by
  subst houtput
  intro input hinput path hpath place s hplace hspot i _ hs
  have hfound := hinputs input hinput
  obtain rfl : path = input := by simpa [candidates, hfound] using hpath
  -- The input would have to be the entry of a number, but nothing stands below the directory.
  have hentry : place = entryOf lang directory i :=
    Decidable.byContradiction fun hne => (h.unshared lang).spotAt_ne hext h.located hs hne hspot
  have hlookup : before.lookup path = before.entryAt place := by
    rw [FileSystem.lookup, hplace]
    rfl
  have hnone : before.entryAt place = .error .notFound := by
    rw [hentry, FileSystem.entryAt, entryOf, FileSystem.node?_of_list_eq_nil h.empty]
  rw [hlookup, hnone] at hfound
  cases hfound

/-- When all units have been stored, the names in the output directory are those of their files. -/
theorem mem_names_iff (hfresh : Fresh before output directory) (hext : '/' ∉ lang.extension.toList)
    (h : Stored lang output before one storings (storings.length + 1) after)
    (hids : (storings.map Storing.id).Perm (List.range' 1 storings.length)) (hall : ∀ s ∈ storings, s.error = none)
    {name : String} : name ∈ (after.list directory).map Prod.fst ↔
      name ∈ (List.range' 1 storings.length).map (fileName lang) := by
  have hu := hfresh.unshared lang
  rw [FileSystem.mem_map_fst_list_iff, List.mem_map]
  constructor
  · intro hnode
    by_contra hother
    have huntouched : Untouched before after (directory ++ [name]) := h.untouched fun s hs id hpos hlt hid => by
      refine hu.spotAt_ne hext hfresh.located hid (fun heq => hother ⟨id, ?_, ?_⟩) hs
      · exact List.mem_range'_1.mpr ⟨hpos, by omega⟩
      · exact (List.singleton_inj.mp (List.append_cancel_left heq)).symm
    rw [huntouched.1, FileSystem.node?_of_list_eq_nil hfresh.empty] at hnode
    exact hnode rfl
  · rintro ⟨id, hid, rfl⟩
    obtain ⟨s, hs, rfl⟩ := List.mem_map.mp (hids.mem_iff.mpr hid)
    obtain ⟨number, ⟨spot, hspot, hnumber⟩, -⟩ := h.stored s hs (hall s hs)
    have hentry := hu.spotAt_entryOf hext hfresh.located hspot
    have hnode := h.evolved.node?_of_number? hentry hnumber
    rw [fileName, ← entryOf, hnode]
    exact Option.some_ne_none _

/-- When all units have been stored, the output directory lists one file for each of them and nothing else. -/
theorem perm_names (hfresh : Fresh before output directory) (hext : '/' ∉ lang.extension.toList)
    (h : Stored lang output before one storings (storings.length + 1) after)
    (hids : (storings.map Storing.id).Perm (List.range' 1 storings.length))
    (hall : ∀ s ∈ storings, s.error = none) :
    ((after.list directory).map Prod.fst).Perm ((List.range' 1 storings.length).map (fileName lang)) := by
  have hbelow : (after.below directory).Nodup := by
    refine h.evolved.keys _ ?_
    rw [← FileSystem.below, FileSystem.below_eq_nil hfresh.empty]
    exact List.nodup_nil
  have hnames : ((List.range' 1 storings.length).map (fileName lang)).Nodup :=
    List.Nodup.map (fun i j hij => fileName_inj hij) List.nodup_range'
  exact (List.perm_ext_iff_of_nodup (FileSystem.nodup_map_fst_list hbelow) hnames).mpr fun _ =>
    hfresh.mem_names_iff hext h hids hall

/-- If all units can be stored, the directory lists as many files as there are units, and nothing else. -/
theorem exists_list? {config : Config} {inputs : List String} {load synth write : Nat} {o : Outcome}
    {read : List String} {requests : List TypeRequest}
    (h : Serial lang config inputs load synth write before read requests storings o after)
    (hfresh : Fresh before config.output directory) (hext : '/' ∉ lang.extension.toList)
    (hall : ∀ s ∈ storings, s.error = none) : ∃ files, after.list? config.output = some files ∧
      (files.map Prod.fst).Perm
        ((List.range' 1 (unitCount lang before.lookup config.searchRoot inputs)).map (fileName lang)) := by
  have hways := h.stored.evolved.ways
  refine ⟨after.list directory, FileSystem.list?_eq_some_iff.mpr ⟨directory, ?_, ?_, rfl⟩, ?_⟩
  · exact hways.locate_eq_ok hfresh.located
  · exact (hways.directories directory).mp hfresh.isDirectory
  · rw [← h.length_storings]
    exact hfresh.perm_names hext h.stored h.ids.perm hall

end Fresh

end TestScaffold.Generation
