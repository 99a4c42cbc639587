import TestScaffold.Proofs.Generation.Passage

/-!
# One item after the other

`run` takes one item at a time. It loads all inputs, then makes all units, and then stores them. The stages can do the
same, so `run` ends as a run may end under some schedule. Where a dispatcher breaks down, it does so before the first
item comes to it.

Results:
* `Progress.leads_first`, `leads_second`, `leads_third`: each stage from its beginning to its end, or broken down.
* `run_eq`: what is left when `run` is over, told stage by stage.
* `ends_run_of_fits`, `ends_run_withParallelism`: `run` is a run under some schedule, if the stages get the permits that
  the configuration asks for.
* `ends_run`: it is one with any parallelism, if the configuration lets no dispatcher break down (`NoneBreaksDown`).
-/

namespace TestScaffold.Generation

namespace Stage

variable {ι σ : Type}

/-- A stage before its first item: its dispatcher has not begun, or has broken down. -/
def opened (permits senders : Nat) (queue : List ι) : Stage ι σ :=
  if permits ≤ maxPermits then { permits := permits, senders := senders, queue := queue }
  else { status := .broken, permits := permits, senders := senders }

/-- A stage after its last item. -/
def ending (permits : Nat) (reaped : List (Finished ι)) : Stage ι σ :=
  if permits ≤ maxPermits then { status := .returned, permits := permits, senders := 0, reaped := reaped }
  else { status := .broken, permits := permits, senders := 0 }

theorem gone_opened (permits senders : Nat) (queue : List ι) :
    (opened permits senders queue : Stage ι σ).gone = decide (maxPermits < permits) := by
  unfold opened
  split
  · rw [decide_eq_false (Nat.not_lt.mpr ‹_›)]
    rfl
  · rw [decide_eq_true (Nat.not_le.mp ‹_›)]
    rfl

theorem close_opened (permits senders : Nat) (queue : List ι) :
    (opened permits senders queue : Stage ι σ).close = opened permits (senders - 1) queue := by
  unfold opened
  split <;> rfl

/-- Nothing comes to a stage whose dispatcher has broken down. -/
theorem fill_opened {s : Stage ι σ} {permits senders : Nat} {queue : List ι} (hs : s = opened permits senders [])
    (h : maxPermits < permits → queue = []) : { s with queue := s.queue ++ queue } = opened permits senders queue := by
  rw [hs]
  unfold opened
  split
  · rfl
  · rw [h (Nat.not_le.mp ‹_›)]
    rfl

theorem report_ending (kind : StageName) (permits : Nat) (reaped : List (Finished ι)) :
    (ending permits reaped : Stage ι σ).report kind =
      if maxPermits < permits then [.breakdown kind permitsRefusal] else reaped.filterMap Finished.error := by
  unfold ending
  split
  · rw [if_neg (Nat.not_lt.mpr ‹_›)]
    rfl
  · rw [if_pos (Nat.not_le.mp ‹_›)]
    rfl

end Stage

namespace Progress

variable {lang : Language} {config : Config} {files : FileSystem} {phase : Phase} {summary : Summary} {next : Nat}
  {refused : List GenerationError} {loader : Stage String (Option (List TypeRequest))}
  {synthesizer : Stage TypeRequest (Option TestUnit)} {writer : Stage TestUnit Filing}

/-! ## From the beginning to the end of each stage -/

/-- The run submits all its inputs before anything else happens. -/
theorem leads_submits (inputs : List String) {summary : Summary} {loader : Stage String (Option (List TypeRequest))}
    (hopen : loader.gone = false) :
    Leads lang config ⟨files, .submitting inputs, summary, next, refused, loader, synthesizer, writer⟩
      ⟨files, .submitting [], { summary with inputs := summary.inputs + inputs.length }, next, refused,
        { loader with queue := loader.queue ++ inputs }, synthesizer, writer⟩ := by
  induction inputs generalizing summary loader with
  | nil =>
    rw [List.append_nil]
    exact .refl ..
  | cons input inputs ih =>
    have hsubmit : (Progress.mk files (.submitting (input :: inputs)) summary next refused loader synthesizer
        writer).perform lang config .submit =
        some ⟨files, .submitting inputs, { summary with inputs := summary.inputs + 1 }, next, refused, loader.send input,
          synthesizer, writer⟩ := by
      simp [perform, Progress.submit, hopen]
    have hcount : summary.inputs + (input :: inputs).length = summary.inputs + 1 + inputs.length := by
      rw [List.length_cons]
      omega
    rw [hcount, List.append_cons loader.queue]
    exact (Leads.step .submit hsubmit).trans (ih hopen)

/-- The dispatcher of the third stage breaks down before anything else happens, if it ever does. -/
theorem leads_opened_writer (permits : Nat) :
    Leads lang config ⟨files, phase, summary, next, refused, loader, synthesizer, { permits := permits, senders := 2 }⟩
      ⟨files, phase, summary, next, refused, loader, synthesizer, .opened permits 2 []⟩ := by
  unfold Stage.opened
  split
  · exact .refl ..
  · refine .step (.writerTurn .begin) ?_
    simp [perform, writerTurn, Stage.turn, *]

/-- So does that of the second stage, which lets go of the third one then. -/
theorem leads_opened_synthesizer (permits : Nat) : Leads lang config
    ⟨files, phase, summary, next, refused, loader, { permits := permits, senders := 2 }, writer⟩
    ⟨files, phase, summary, next, refused, loader, .opened permits 2 [],
      if permits ≤ Stage.maxPermits then writer else writer.close⟩ := by
  unfold Stage.opened
  split
  · exact .refl ..
  · refine .step (.synthesizerTurn .begin) ?_
    simp [perform, synthesizerTurn, Stage.turn, Stage.gone, *]

/-- The first stage passes nothing on while the second one is closed. -/
theorem foundIn_loaded_closed (inputs : List String) : foundIn (inputs.map (loaded lang config files true)) = [] := by
  induction inputs with
  | nil => rfl
  | cons input inputs ih =>
    have hnone : foundIn [loaded lang config files true input] = [] := by
      unfold loaded
      cases load lang files.lookup config.searchRoot input with
      | error e => rfl
      | ok found => cases found <;> rfl
    rw [List.map_cons, ← List.singleton_append, foundIn_append, hnone, ih, List.append_nil]

theorem filterMap_made_closed (requests : List TypeRequest) :
    (requests.map (made lang true)).filterMap Except.toOption = [] := by
  rw [List.filterMap_map, List.filterMap_eq_nil_iff]
  intro request _
  show (made lang true request).toOption = none
  unfold made
  cases synthesize lang request <;> rfl

/-- The first stage from its beginning to its end. -/
theorem leads_first {load : Nat} (hload : 0 < load) (synth : Nat) {inputs taken : List String}
    (htaken : taken = if Stage.maxPermits < load then [] else inputs) :
    Leads lang config
      ⟨files, .submitting [], summary, next, refused, { permits := load, senders := 1, queue := inputs },
        .opened synth 2 [], writer⟩
      ⟨files, .synthesizing,
        { summary with
          typesDiscovered := summary.typesDiscovered +
            typeCount (taken.map (loaded lang config files (Stage.maxPermits < synth))) }, next, refused,
        .ending load (taken.map fun input =>
          ⟨input, failure? (loaded lang config files (Stage.maxPermits < synth) input)⟩),
        .opened synth 0 (foundIn (taken.map (loaded lang config files (Stage.maxPermits < synth)))), writer⟩ := by
  have hclosed (queue : List TypeRequest) : (Stage.opened synth 2 queue : Stage TypeRequest (Option TestUnit)).close.close =
      .opened synth 0 queue := by
    rw [Stage.close_opened, Stage.close_opened]
  rw [← hclosed]
  rcases Nat.lt_or_ge Stage.maxPermits load with hmax | hmax
  · rw [if_pos hmax] at htaken
    subst htaken
    have hending : (Stage.ending load [] : Stage String (Option (List TypeRequest))) =
        { status := .broken, permits := load, senders := 0 } := if_neg (Nat.not_le.mpr hmax)
    rw [List.map_nil, List.map_nil, hending]
    refine ⟨[.proceed, .loaderTurn .begin, .proceed], ?_⟩
    simp [performAll, perform, proceed, loaderTurn, Stage.turn, Stage.gone, Stage.close, Nat.not_le.mpr hmax, typeCount,
      foundIn]
  · rw [if_neg (Nat.not_lt.mpr hmax)] at htaken
    subst htaken
    obtain ⟨n, rfl⟩ := Nat.exists_eq_add_one_of_ne_zero (Nat.ne_of_gt hload)
    have hbegin : (Progress.mk files (.submitting []) summary next refused
        { permits := n + 1, senders := 1, queue := taken } (.opened synth 2 []) writer).performAll lang config
          [.proceed, .loaderTurn .begin] =
        some ⟨files, .loading, summary, next, refused, .resting n 0 taken [], .opened synth 2 [], writer⟩ := by
      simp [performAll, perform, proceed, loaderTurn, Stage.turn, hmax, Stage.gone, Stage.close, Stage.resting]
    have hend (summary : Summary) (done : List (Finished String)) (synthesizer : Stage TypeRequest (Option TestUnit)) :
        (Progress.mk files .loading summary next refused (.resting n 0 [] done) synthesizer writer).performAll lang config
          [.loaderTurn .finish, .proceed] =
        some ⟨files, .synthesizing, summary, next, refused, .ending (n + 1) done, synthesizer.close.close, writer⟩ := by
      rw [Stage.ending, if_pos hmax]
      simp [performAll, perform, proceed, loaderTurn, Stage.turn, Stage.gone, Stage.resting, Stage.isDrained]
    have hfilled (h : Stage.maxPermits < synth) :
        foundIn (taken.map (loaded lang config files (Stage.maxPermits < synth))) = [] := by
      rw [decide_eq_true h]
      exact foundIn_loaded_closed taken
    refine Leads.trans ⟨_, hbegin⟩ ((leads_loads taken (Stage.gone_opened ..)).trans ?_)
    rw [List.nil_append, Stage.fill_opened rfl hfilled]
    exact ⟨_, hend ..⟩

/-- The second stage from its beginning to its end, or as it is once it has broken down. -/
theorem leads_second {synth : Nat} (hsynth : 0 < synth) (write : Nat) {requests : List TypeRequest}
    (hempty : Stage.maxPermits < synth → requests = []) :
    Leads lang config
      ⟨files, .synthesizing, summary, next, refused, loader, .opened synth 0 requests,
        if synth ≤ Stage.maxPermits then .opened write 2 [] else (Stage.opened write 2 []).close⟩
      ⟨files, .storing,
        { summary with
          unitsRendered := summary.unitsRendered + renderCount (requests.map (made lang (Stage.maxPermits < write))) },
        next, refused, loader,
        .ending synth (requests.map fun r => ⟨r, failure? (made lang (Stage.maxPermits < write) r)⟩),
        .opened write 0 ((requests.map (made lang (Stage.maxPermits < write))).filterMap Except.toOption)⟩ := by
  have hclosed (queue : List TestUnit) : (Stage.opened write 2 queue : Stage TestUnit Filing).close.close =
      .opened write 0 queue := by
    rw [Stage.close_opened, Stage.close_opened]
  rcases Nat.lt_or_ge Stage.maxPermits synth with hmax | hmax
  · obtain rfl := hempty hmax
    rw [Stage.opened, Stage.ending, if_neg (Nat.not_le.mpr hmax), if_neg (Nat.not_le.mpr hmax), if_neg (Nat.not_le.mpr hmax)]
    rw [List.map_nil, List.filterMap_nil, ← hclosed]
    exact .step .proceed rfl
  · obtain ⟨n, rfl⟩ := Nat.exists_eq_add_one_of_ne_zero (Nat.ne_of_gt hsynth)
    have hbegin : (Progress.mk files .synthesizing summary next refused loader (.opened (n + 1) 0 requests)
        (.opened write 2 [])).perform lang config (.synthesizerTurn .begin) =
        some ⟨files, .synthesizing, summary, next, refused, loader, .resting n 0 requests [], .opened write 2 []⟩ := by
      rw [Stage.opened, if_pos hmax]
      simp [perform, synthesizerTurn, Stage.turn, hmax, Stage.gone, Stage.resting]
    have hend (summary : Summary) (done : List (Finished TypeRequest)) (writer : Stage TestUnit Filing) :
        (Progress.mk files .synthesizing summary next refused loader (.resting n 0 [] done) writer).performAll lang config
          [.synthesizerTurn .finish, .proceed] =
        some ⟨files, .storing, summary, next, refused, loader, .ending (n + 1) done, writer.close.close⟩ := by
      rw [Stage.ending, if_pos hmax]
      simp [performAll, perform, proceed, synthesizerTurn, Stage.turn, Stage.gone, Stage.resting, Stage.isDrained]
    have hfilled (h : Stage.maxPermits < write) :
        (requests.map (made lang (Stage.maxPermits < write))).filterMap Except.toOption = [] := by
      rw [decide_eq_true h]
      exact filterMap_made_closed requests
    rw [if_pos hmax, ← hclosed]
    refine (Leads.step _ hbegin).trans ((leads_makes requests (Stage.gone_opened ..)).trans ?_)
    rw [List.nil_append, Stage.fill_opened rfl hfilled]
    exact ⟨_, hend ..⟩

/-- The third stage from its beginning to its end, or as it is once it has broken down. -/
theorem leads_third {write : Nat} (hwrite : 0 < write) {units : List TestUnit}
    (hempty : Stage.maxPermits < write → units = []) :
    Leads lang config
      ⟨files, .storing, summary, next, refused, loader, synthesizer, .opened write 0 units⟩
      ⟨(storeFrom lang config.output files next units).2, .over,
        { summary with
          filesWritten :=
            summary.filesWritten + ((storeFrom lang config.output files next units).1.filterMap Except.toOption).length },
        next + units.length, refused, loader, synthesizer,
        .ending write (List.zipWith finishedUnit units (storeFrom lang config.output files next units).1)⟩ := by
  rcases Nat.lt_or_ge Stage.maxPermits write with hmax | hmax
  · obtain rfl := hempty hmax
    rw [Stage.opened, Stage.ending, if_neg (Nat.not_le.mpr hmax), if_neg (Nat.not_le.mpr hmax)]
    exact .step .proceed rfl
  · obtain ⟨n, rfl⟩ := Nat.exists_eq_add_one_of_ne_zero (Nat.ne_of_gt hwrite)
    have hbegin : (Progress.mk files .storing summary next refused loader synthesizer
        (.opened (n + 1) 0 units)).perform lang config (.writerTurn .begin) =
        some ⟨files, .storing, summary, next, refused, loader, synthesizer, .resting n 0 units []⟩ := by
      rw [Stage.opened, if_pos hmax]
      simp [perform, writerTurn, Stage.turn, hmax, Stage.resting]
    have hend (files : FileSystem) (summary : Summary) (next : Nat) (done : List (Finished TestUnit)) :
        (Progress.mk files .storing summary next refused loader synthesizer (.resting n 0 [] done)).performAll lang config
          [.writerTurn .finish, .proceed] =
        some ⟨files, .over, summary, next, refused, loader, synthesizer, .ending (n + 1) done⟩ := by
      rw [Stage.ending, if_pos hmax]
      simp [performAll, perform, proceed, writerTurn, Stage.turn, Stage.gone, Stage.resting, Stage.isDrained]
    refine (Leads.step _ hbegin).trans ((leads_stores units).trans ?_)
    rw [List.nil_append]
    exact ⟨_, hend ..⟩

end Progress

/-! ## The plan -/

theorem separate_eq {α ε : Type} (results : List (Except ε α)) :
    separate results = (results.filterMap Except.toOption, results.filterMap failure?) := by
  unfold separate
  congr 2
  funext r
  cases r <;> rfl

theorem length_storeFrom (lang : Language) (output : String) (fs : FileSystem) (id : Nat) (units : List TestUnit) :
    (storeFrom lang output fs id units).1.length = units.length := by
  induction units generalizing fs id with
  | nil => rfl
  | cons u units ih =>
    cases h : store lang output fs id u with
    | ok after => rw [storeFrom_cons_of_ok h, List.length_cons, List.length_cons, ih]
    | error e => rw [storeFrom_cons_of_error h, List.length_cons, List.length_cons, ih]

theorem filterMap_zipWith_finishedUnit {units : List TestUnit} {stored : List (Except GenerationError Unit)}
    (h : stored.length = units.length) :
    (List.zipWith Progress.finishedUnit units stored).filterMap Finished.error = stored.filterMap failure? := by
  induction units generalizing stored with
  | nil =>
    obtain rfl := List.eq_nil_of_length_eq_zero h
    rfl
  | cons u units ih =>
    obtain ⟨result, stored, rfl⟩ := List.exists_cons_of_length_eq_add_one h
    rw [List.zipWith_cons_cons, List.filterMap_cons, List.filterMap_cons, ih (Nat.succ.inj h)]
    rfl

/-- A stage with some permits, of which there is at least one, breaks down where its setting says so. -/
def Fits (parallelism : Option Nat) (permits : Nat) : Prop :=
  0 < permits ∧ breaksDown parallelism = decide (Stage.maxPermits < permits)

theorem Fits.some {permits : Nat} (h : 0 < permits) : Fits (.some permits) permits := ⟨h, rfl⟩

/-- No dispatcher of a run breaks down. -/
def NoneBreaksDown (config : Config) : Prop := ∀ p ∈ config.parallelisms, breaksDown p.2 = false

instance (config : Config) : Decidable (NoneBreaksDown config) :=
  inferInstanceAs (Decidable (∀ p ∈ config.parallelisms, breaksDown p.2 = false))

theorem NoneBreaksDown.fits {config : Config} (h : NoneBreaksDown config) {p : String × Option Nat}
    (hp : p ∈ config.parallelisms) {permits : Nat} (hpermits : Stage.Workable permits) : Fits p.2 permits := by
  refine ⟨hpermits.1, ?_⟩
  rw [h p hp, decide_eq_false (Nat.not_lt.mpr hpermits.2)]

open Progress in
/-- What is left when `run` is over, told stage by stage. -/
theorem run_eq (lang : Language) {config : Config} {load synth write : Nat} (hload : Fits config.loadParallelism load)
    (hsynth : Fits config.synthParallelism synth) (hwrite : Fits config.writeParallelism write) (inputs : List String)
    (fs : FileSystem) : run lang config inputs fs =
      let taken := if Stage.maxPermits < load then [] else inputs
      let found := taken.map (loaded lang config fs (Stage.maxPermits < synth))
      let units := (foundIn found).map (made lang (Stage.maxPermits < write))
      let stored := storeFrom lang config.output fs 1 (units.filterMap Except.toOption)
      (⟨⟨inputs.length, typeCount found, renderCount units, (stored.1.filterMap Except.toOption).length⟩,
        (if Stage.maxPermits < load then [.breakdown .load Stage.permitsRefusal] else found.filterMap failure?) ++
          (if Stage.maxPermits < synth then [.breakdown .synthesize Stage.permitsRefusal]
            else units.filterMap failure?) ++
          (if Stage.maxPermits < write then [.breakdown .write Stage.permitsRefusal]
            else stored.1.filterMap failure?)⟩, stored.2) := by
  unfold run Plan.make Plan.outcome
  simp only [separate_eq, reportOf, hload.2, hsynth.2, hwrite.2, decide_eq_true_eq]
  rfl

open Progress in
/-- `run` ends as a run may end under some schedule. -/
theorem ends_run_of_fits (lang : Language) {config : Config} {load synth write : Nat}
    (hload : Fits config.loadParallelism load) (hsynth : Fits config.synthParallelism synth)
    (hwrite : Fits config.writeParallelism write) (inputs : List String) (before : FileSystem) :
    Ends lang config inputs load synth write before (run lang config inputs before).1 (run lang config inputs before).2 := by
  have hsubmitted : Leads lang config (.start inputs load synth write before)
      ⟨before, .submitting [], { inputs := 0 + inputs.length }, 1, [], { permits := load, senders := 1, queue := inputs },
        { permits := synth, senders := 2 }, { permits := write, senders := 2 }⟩ := leads_submits inputs rfl
  have hopened := (hsubmitted.trans (leads_opened_writer write)).trans (leads_opened_synthesizer synth)
  have hloaded := hopened.trans (leads_first hload.1 synth rfl)
  have hmade := hloaded.trans (leads_second hsynth.1 write fun h => by
    rw [decide_eq_true h]
    exact foundIn_loaded_closed _)
  obtain ⟨schedule, hschedule⟩ := hmade.trans (leads_third hwrite.1 fun h => by
    rw [decide_eq_true h]
    exact filterMap_made_closed _)
  refine ⟨schedule, _, hschedule, rfl, ?_, ?_⟩
  · rw [run_eq lang hload hsynth hwrite]
    simp only [Progress.outcome, Stage.report_ending, List.nil_append, Nat.zero_add,
      filterMap_zipWith_finishedUnit (length_storeFrom ..), List.filterMap_map, Function.comp_def]
  · rw [run_eq lang hload hsynth hwrite]

/-- `run` ends as a run with the parallelism that it is given may end, also where a dispatcher breaks down. -/
theorem ends_run_withParallelism (lang : Language) (config : Config) {load synth write : Nat} (hload : 0 < load)
    (hsynth : 0 < synth) (hwrite : 0 < write) (inputs : List String) (before : FileSystem) :
    let config := config.withParallelism load synth write
    Ends lang config inputs load synth write before (run lang config inputs before).1 (run lang config inputs before).2 :=
  ends_run_of_fits lang (.some hload) (.some hsynth) (.some hwrite) inputs before

/-- Where no dispatcher breaks down, `run` ends as a run with any workable parallelism may end. -/
theorem ends_run (lang : Language) {config : Config} (hwork : NoneBreaksDown config) (inputs : List String)
    (before : FileSystem) {load synth write : Nat} (hall : AllWorkable load synth write) :
    Ends lang config inputs load synth write before (run lang config inputs before).1 (run lang config inputs before).2 := by
  obtain ⟨hload, hsynth, hwrite⟩ := hall
  exact ends_run_of_fits lang (hwork.fits (p := ("load", _)) (by simp [Config.parallelisms]) hload)
    (hwork.fits (p := ("synth", _)) (by simp [Config.parallelisms]) hsynth)
    (hwork.fits (p := ("write", _)) (by simp [Config.parallelisms]) hwrite) inputs before

end TestScaffold.Generation
