import TestScaffold.Proofs.Generation.Serial

/-!
# Items that go through the stages one by one

A stage may finish each item before it takes the next one, however many jobs may run at once. It rests between two
items: no job is running and nothing is in hand. What an item comes to depends on whether the next stage still takes
anything.

Results:
* `Progress.leads_load`, `leads_make`, `leads_stored`, `leads_refused`: one item goes through its stage.
* `Progress.leads_loads`, `leads_makes`, `leads_stores`: all items do, one after the other.
-/

namespace TestScaffold.Generation

/-- A stage that rests. -/
def Stage.resting {ι σ : Type} (permits senders : Nat) (queue : List ι) (reaped : List (Finished ι)) : Stage ι σ :=
  { status := .working, permits := permits + 1, senders := senders, queue := queue, reaped := reaped }

/-! ## What a stage comes to -/

/-- The types among the results of loading some inputs. -/
def foundIn (rs : List (Except GenerationError (List TypeRequest))) : List TypeRequest :=
  (rs.filterMap Except.toOption).flatten

/-- How many types some inputs have, with those that the second stage refused. -/
def typeCount (rs : List (Except GenerationError (List TypeRequest))) : Nat :=
  (foundIn rs).length + (rs.filterMap failure?).count (.stageClosed .synthesize)

/-- How many units have been made, with those that the third stage refused. -/
def renderCount (rs : List (Except GenerationError TestUnit)) : Nat :=
  (rs.filterMap Except.toOption).length + (rs.filterMap failure?).count (.stageClosed .write)

theorem foundIn_append (rs rs' : List (Except GenerationError (List TypeRequest))) :
    foundIn (rs ++ rs') = foundIn rs ++ foundIn rs' := by
  rw [foundIn, List.filterMap_append, List.flatten_append]
  rfl

theorem typeCount_append (rs rs' : List (Except GenerationError (List TypeRequest))) :
    typeCount (rs ++ rs') = typeCount rs + typeCount rs' := by
  rw [typeCount, foundIn_append, List.length_append, List.filterMap_append, List.count_append, typeCount, typeCount]
  omega

theorem renderCount_append (rs rs' : List (Except GenerationError TestUnit)) :
    renderCount (rs ++ rs') = renderCount rs + renderCount rs' := by
  rw [renderCount, List.filterMap_append, List.filterMap_append, List.length_append, List.count_append, renderCount,
    renderCount]
  omega

/-- An error of a stage does not say that another is closed. -/
theorem count_stageClosed {e : GenerationError} {stage other : StageName} (h : stageOf? e = some stage) :
    [e].count (.stageClosed other) = 0 := by
  rw [List.count_eq_zero, List.mem_singleton]
  rintro rfl
  cases h

theorem typeCount_error {e : GenerationError} (h : stageOf? e = some .load) : typeCount [.error e] = 0 :=
  (Nat.zero_add _).trans (count_stageClosed h)

theorem renderCount_error {e : GenerationError} (h : stageOf? e = some .synthesize) : renderCount [.error e] = 0 :=
  (Nat.zero_add _).trans (count_stageClosed h)

theorem foundIn_ok (found : List TypeRequest) : foundIn [.ok found] = found := List.append_nil found

theorem typeCount_ok (found : List TypeRequest) : typeCount [.ok found] = found.length := by
  rw [typeCount, foundIn_ok]
  rfl

theorem exists_create_of_store {lang : Language} {output : String} {fs after : FileSystem} {id : Nat} {u : TestUnit}
    (h : store lang output fs id u = .ok after) : ∃ made file, fs.create (outputPath lang output id) = .ok (made, file) ∧
      after = made.writeAt file 0 (Text.encode u.text) := by
  unfold store FileSystem.write at h
  cases hc : fs.create (outputPath lang output id) with
  | error cause => simp [hc, bind, Except.bind] at h
  | ok made =>
    obtain ⟨made, file⟩ := made
    simp only [hc, bind, Except.bind, pure, Except.pure, Except.ok.injEq] at h
    exact ⟨made, file, rfl, h.symm⟩

theorem exists_cause_of_store {lang : Language} {output : String} {fs : FileSystem} {id : Nat} {u : TestUnit}
    {e : GenerationError} (h : store lang output fs id u = .error e) :
    ∃ cause, fs.create (outputPath lang output id) = .error cause ∧ e = .write (outputPath lang output id) u.typeName cause := by
  unfold store FileSystem.write at h
  cases hc : fs.create (outputPath lang output id) with
  | error cause =>
    simp only [hc, bind, Except.bind, Except.error.injEq] at h
    exact ⟨cause, rfl, h.symm⟩
  | ok made => simp [hc, bind, Except.bind, pure, Except.pure] at h

namespace Progress

/-- Some schedule leads from one state of a run to another. -/
def Leads (lang : Language) (config : Config) (p q : Progress) : Prop :=
  ∃ schedule, p.performAll lang config schedule = some q

variable {lang : Language} {config : Config} {p q r : Progress}

namespace Leads

theorem refl (lang : Language) (config : Config) (p : Progress) : Leads lang config p p := ⟨[], rfl⟩

theorem step (e : Event) (he : p.perform lang config e = some q) : Leads lang config p q :=
  ⟨[e], by simp [performAll, he]⟩

theorem trans (h : Leads lang config p q) (k : Leads lang config q r) : Leads lang config p r := by
  obtain ⟨first, hfirst⟩ := h
  obtain ⟨second, hsecond⟩ := k
  exact ⟨first ++ second, by rw [performAll_append, hfirst, Option.bind_some, hsecond]⟩

end Leads

variable {files : FileSystem} {phase : Phase} {summary : Summary} {next n senders : Nat}
  {refused : List GenerationError} {loader : Stage String (Option (List TypeRequest))}
  {synthesizer : Stage TypeRequest (Option TestUnit)} {writer : Stage TestUnit Filing} {closed : Bool}

/-! ## The first stage -/

/-- What an input comes to in the first stage, if the second one may be closed. -/
def loaded (lang : Language) (config : Config) (files : FileSystem) (closed : Bool) (input : String) :
    Except GenerationError (List TypeRequest) :=
  load lang files.lookup config.searchRoot input >>= Generation.emit closed

/-- The types that a job has found are passed on one by one. -/
theorem leads_emit {input : String} (found : List TypeRequest) {summary : Summary}
    {synthesizer : Stage TypeRequest (Option TestUnit)} (hopen : synthesizer.gone = false)
    (hl : loader.running = [(input, some found)]) :
    Leads lang config ⟨files, phase, summary, next, refused, loader, synthesizer, writer⟩
      ⟨files, phase, { summary with typesDiscovered := summary.typesDiscovered + found.length }, next, refused,
        { loader with running := [(input, some [])] },
        { synthesizer with queue := synthesizer.queue ++ found }, writer⟩ := by
  induction found generalizing summary synthesizer loader with
  | nil =>
    obtain ⟨status, permits, senders, queue, hand, running, leaving, unreaped, reaped⟩ := loader
    obtain rfl : running = [(input, some [])] := hl
    rw [List.append_nil]
    exact .refl ..
  | cons request found ih =>
    have hemit : (Progress.mk files phase summary next refused loader synthesizer writer).perform lang config (.emit 0) =
        some ⟨files, phase, { summary with typesDiscovered := summary.typesDiscovered + 1 }, next, refused,
          { loader with running := [(input, some found)] }, synthesizer.send request, writer⟩ := by
      simp [perform, Progress.emit, hl, hopen, Stage.advance]
    have hcount : summary.typesDiscovered + (request :: found).length = summary.typesDiscovered + 1 + found.length := by
      rw [List.length_cons]
      omega
    have hqueue : synthesizer.queue ++ request :: found = (synthesizer.send request).queue ++ found := by
      simp [Stage.send]
    rw [hcount, hqueue]
    exact (Leads.step (.emit 0) hemit).trans (ih hopen rfl)

/-- A job that has found its types passes them on, or is refused the first one. Either way its work is over then. -/
theorem leads_emitted {input : String} {inputs : List String} {found : List TypeRequest} {done : List (Finished String)}
    (hgone : synthesizer.gone = closed) :
    Leads lang config
      ⟨files, phase, summary, next, refused,
        { status := .working, permits := n, senders := senders, queue := inputs, running := [(input, some found)],
          reaped := done }, synthesizer, writer⟩
      ⟨files, phase,
        { summary with typesDiscovered := summary.typesDiscovered + typeCount [Generation.emit closed found] }, next,
        refused,
        { status := .working, permits := n + 1, senders := senders, queue := inputs,
          leaving := [⟨input, failure? (Generation.emit closed found)⟩], reaped := done },
        { synthesizer with queue := synthesizer.queue ++ foundIn [Generation.emit closed found] }, writer⟩ := by
  by_cases hrefused : closed = true ∧ found ≠ []
  · obtain ⟨rfl, hne⟩ := hrefused
    obtain ⟨request, found, rfl⟩ := List.exists_cons_of_ne_nil hne
    have hemit : Generation.emit true (request :: found) = .error (.stageClosed .synthesize) := rfl
    have hfound : foundIn [.error (.stageClosed .synthesize)] = [] := rfl
    have hcount : typeCount [.error (.stageClosed .synthesize)] = 1 := rfl
    rw [hemit, hcount, hfound, List.append_nil]
    refine .step (.emit 0) ?_
    simp [perform, Progress.emit, hgone, Stage.finish, failure?]
  · have hemit : Generation.emit closed found = .ok found := by
      cases closed <;> simp_all [Generation.emit]
    have hpassed : Leads lang config
        ⟨files, phase, summary, next, refused,
          { status := .working, permits := n, senders := senders, queue := inputs, running := [(input, some found)],
            reaped := done }, synthesizer, writer⟩
        ⟨files, phase, { summary with typesDiscovered := summary.typesDiscovered + found.length }, next, refused,
          { status := .working, permits := n, senders := senders, queue := inputs, running := [(input, some [])],
            reaped := done }, { synthesizer with queue := synthesizer.queue ++ found }, writer⟩ := by
      cases closed with
      | false => exact leads_emit found hgone rfl
      | true =>
        obtain rfl : found = [] := by simpa using hrefused
        rw [List.append_nil]
        exact .refl ..
    rw [hemit, typeCount_ok, foundIn_ok]
    exact hpassed.trans (.step (.endLoad 0) rfl)

/-- The first stage loads the next input. -/
theorem leads_load {input : String} {inputs : List String} {done : List (Finished String)}
    (hgone : synthesizer.gone = closed) :
    Leads lang config ⟨files, phase, summary, next, refused, .resting n senders (input :: inputs) done, synthesizer, writer⟩
      ⟨files, phase,
        { summary with typesDiscovered := summary.typesDiscovered + typeCount [loaded lang config files closed input] },
        next, refused,
        .resting n senders inputs (done ++ [⟨input, failure? (loaded lang config files closed input)⟩]),
        { synthesizer with queue := synthesizer.queue ++ foundIn [loaded lang config files closed input] }, writer⟩ := by
  -- The job begins, and has given its permit back when it is reaped.
  have hbegin : (Progress.mk files phase summary next refused (.resting n senders (input :: inputs) done) synthesizer
      writer).performAll lang config [.loaderTurn .take, .loaderTurn .start] =
        some ⟨files, phase, summary, next, refused,
          { status := .working, permits := n, senders := senders, queue := inputs, running := [(input, none)],
            reaped := done }, synthesizer, writer⟩ := rfl
  have hend (summary : Summary) (synthesizer : Stage TypeRequest (Option TestUnit))
      (error : Option GenerationError) :
      (Progress.mk files phase summary next refused
        { status := .working, permits := n + 1, senders := senders, queue := inputs, leaving := [⟨input, error⟩],
          reaped := done } synthesizer writer).performAll lang config [.loaderTurn (.leave 0), .loaderTurn .reap] =
        some ⟨files, phase, summary, next, refused, .resting n senders inputs (done ++ [⟨input, error⟩]), synthesizer,
          writer⟩ := rfl
  refine Leads.trans ⟨_, hbegin⟩ (Leads.trans ?_ ⟨_, hend ..⟩)
  unfold loaded
  cases hload : load lang files.lookup config.searchRoot input with
  | error e =>
    have hfound : foundIn [.error e] = [] := rfl
    have hemit : (.error e : Except GenerationError (List TypeRequest)) >>= Generation.emit closed = .error e := rfl
    rw [hemit, typeCount_error (stageOf?_of_load hload), hfound, List.append_nil]
    refine .step (.read 0) ?_
    simp [perform, Progress.read, hload, Stage.finish, failure?]
  | ok found =>
    refine (Leads.step (.read 0) ?_).trans (leads_emitted hgone)
    simp [perform, Progress.read, hload, Stage.advance]

/-- The first stage loads all inputs, one after the other. -/
theorem leads_loads (inputs : List String) {summary : Summary} {done : List (Finished String)}
    {synthesizer : Stage TypeRequest (Option TestUnit)} (hgone : synthesizer.gone = closed) :
    Leads lang config ⟨files, phase, summary, next, refused, .resting n senders inputs done, synthesizer, writer⟩
      ⟨files, phase,
        { summary with
          typesDiscovered := summary.typesDiscovered + typeCount (inputs.map (loaded lang config files closed)) },
        next, refused,
        .resting n senders []
          (done ++ inputs.map fun input => ⟨input, failure? (loaded lang config files closed input)⟩),
        { synthesizer with
          queue := synthesizer.queue ++ foundIn (inputs.map (loaded lang config files closed)) }, writer⟩ := by
  induction inputs generalizing summary done synthesizer with
  | nil =>
    have hfound : foundIn [] = [] := rfl
    rw [List.map_nil, List.map_nil, hfound, List.append_nil, List.append_nil]
    exact .refl ..
  | cons input inputs ih =>
    rw [List.map_cons, List.map_cons, List.append_cons done, ← List.singleton_append (x := loaded _ _ _ _ _),
      foundIn_append, typeCount_append, ← List.append_assoc synthesizer.queue, ← Nat.add_assoc]
    exact (leads_load hgone).trans (ih hgone)

/-! ## The second stage -/

/-- What a type comes to in the second stage, if the third one may be closed. -/
def made (lang : Language) (closed : Bool) (request : TypeRequest) : Except GenerationError TestUnit :=
  synthesize lang request >>= handOn closed

/-- A job that has made its unit passes it on, or is refused it. Either way its work is over then. -/
theorem leads_handedOn {request : TypeRequest} {requests : List TypeRequest} {u : TestUnit}
    {done : List (Finished TypeRequest)} (hgone : writer.gone = closed) :
    Leads lang config
      ⟨files, phase, summary, next, refused, loader,
        { status := .working, permits := n, senders := senders, queue := requests, running := [(request, some u)],
          reaped := done }, writer⟩
      ⟨files, phase, summary, next, refused, loader,
        { status := .working, permits := n + 1, senders := senders, queue := requests,
          leaving := [⟨request, failure? (handOn closed u)⟩], reaped := done },
        { writer with queue := writer.queue ++ [handOn closed u].filterMap Except.toOption }⟩ := by
  refine .step (.pass 0) ?_
  cases closed with
  | false =>
    have hunits : [handOn false u].filterMap Except.toOption = [u] := rfl
    rw [hunits]
    simp [perform, Progress.pass, hgone, Stage.finish, Stage.send, handOn, failure?]
  | true =>
    have hunits : [handOn true u].filterMap Except.toOption = [] := rfl
    rw [hunits, List.append_nil]
    simp [perform, Progress.pass, hgone, Stage.finish, handOn, failure?]

/-- The second stage makes the unit for the next type. -/
theorem leads_make {request : TypeRequest} {requests : List TypeRequest} {done : List (Finished TypeRequest)}
    (hgone : writer.gone = closed) :
    Leads lang config ⟨files, phase, summary, next, refused, loader, .resting n senders (request :: requests) done, writer⟩
      ⟨files, phase,
        { summary with unitsRendered := summary.unitsRendered + renderCount [made lang closed request] }, next, refused,
        loader, .resting n senders requests (done ++ [⟨request, failure? (made lang closed request)⟩]),
        { writer with queue := writer.queue ++ [made lang closed request].filterMap Except.toOption }⟩ := by
  have hbegin : (Progress.mk files phase summary next refused loader (.resting n senders (request :: requests) done)
      writer).performAll lang config [.synthesizerTurn .take, .synthesizerTurn .start] =
        some ⟨files, phase, summary, next, refused, loader,
          { status := .working, permits := n, senders := senders, queue := requests, running := [(request, none)],
            reaped := done }, writer⟩ := rfl
  have hend (summary : Summary) (writer : Stage TestUnit Filing) (error : Option GenerationError) :
      (Progress.mk files phase summary next refused loader
        { status := .working, permits := n + 1, senders := senders, queue := requests, leaving := [⟨request, error⟩],
          reaped := done } writer).performAll lang config [.synthesizerTurn (.leave 0), .synthesizerTurn .reap] =
        some ⟨files, phase, summary, next, refused, loader, .resting n senders requests (done ++ [⟨request, error⟩]),
          writer⟩ := rfl
  refine Leads.trans ⟨_, hbegin⟩ (Leads.trans ?_ ⟨_, hend ..⟩)
  unfold made
  cases hmake : synthesize lang request with
  | error e =>
    have hhandOn : (.error e : Except GenerationError TestUnit) >>= handOn closed = .error e := rfl
    have hunits : [(.error e : Except GenerationError TestUnit)].filterMap Except.toOption = [] := rfl
    rw [hhandOn, renderCount_error (stageOf?_of_synthesize hmake), hunits, List.append_nil]
    refine .step (.render 0) ?_
    simp [perform, Progress.render, hmake, Stage.finish, failure?]
  | ok u =>
    have hhandOn : (.ok u : Except GenerationError TestUnit) >>= handOn closed = handOn closed u := rfl
    have hcount : renderCount [handOn closed u] = 1 := by cases closed <;> rfl
    rw [hhandOn, hcount]
    refine (Leads.step (.render 0) ?_).trans (leads_handedOn hgone)
    simp [perform, Progress.render, hmake, Stage.advance]

/-- The second stage makes all units, one after the other. -/
theorem leads_makes (requests : List TypeRequest) {summary : Summary} {done : List (Finished TypeRequest)}
    {writer : Stage TestUnit Filing} (hgone : writer.gone = closed) :
    Leads lang config ⟨files, phase, summary, next, refused, loader, .resting n senders requests done, writer⟩
      ⟨files, phase,
        { summary with unitsRendered := summary.unitsRendered + renderCount (requests.map (made lang closed)) }, next,
        refused, loader, .resting n senders [] (done ++ requests.map fun r => ⟨r, failure? (made lang closed r)⟩),
        { writer with queue := writer.queue ++ (requests.map (made lang closed)).filterMap Except.toOption }⟩ := by
  induction requests generalizing summary done writer with
  | nil =>
    rw [List.map_nil, List.map_nil, List.filterMap_nil, List.append_nil, List.append_nil]
    exact .refl ..
  | cons request requests ih =>
    rw [List.map_cons, List.map_cons, List.append_cons done, ← List.singleton_append (x := made _ _ _),
      renderCount_append, List.filterMap_append, ← List.append_assoc writer.queue, ← Nat.add_assoc]
    exact (leads_make hgone).trans (ih hgone)

/-! ## The third stage -/

/-- What has become of a unit, as the dispatcher of the third stage sees it. -/
def finishedUnit (u : TestUnit) (result : Except GenerationError Unit) : Finished TestUnit := ⟨u, failure? result⟩

/-- A file that has been made is filled in one go. -/
theorem leads_fill {u : TestUnit} {id file : Nat} (hr : writer.running = [(u, .opened id file 0)])
    (hempty : files.writeAt file 0 [] = files) :
    Leads lang config ⟨files, phase, summary, next, refused, loader, synthesizer, writer⟩
      ⟨files.writeAt file 0 (Text.encode u.text), phase, summary, next, refused, loader, synthesizer,
        { writer with running := [(u, .opened id file (Text.encode u.text).length)] }⟩ := by
  by_cases hlength : (Text.encode u.text).length = 0
  · have hnil : Text.encode u.text = [] := List.eq_nil_of_length_eq_zero hlength
    obtain ⟨status, permits, senders, queue, hand, running, leaving, unreaped, reaped⟩ := writer
    obtain rfl : running = [(u, .opened id file 0)] := hr
    rw [hnil, hempty]
    exact .refl ..
  · refine .step (.write 0 (Text.encode u.text).length) ?_
    have hpos : 0 < (Text.encode u.text).length := Nat.pos_of_ne_zero hlength
    simp [perform, Progress.write, hr, Stage.advance, hpos]

/-- The third stage stores the next unit. -/
theorem leads_stored {u : TestUnit} {units : List TestUnit} {done : List (Finished TestUnit)} {after : FileSystem}
    (h : store lang config.output files next u = .ok after) :
    Leads lang config ⟨files, phase, summary, next, refused, loader, synthesizer, .resting n senders (u :: units) done⟩
      ⟨after, phase, { summary with filesWritten := summary.filesWritten + 1 }, next + 1, refused, loader, synthesizer,
        .resting n senders units (done ++ [⟨u, none⟩])⟩ := by
  obtain ⟨made, file, hmade, rfl⟩ := exists_create_of_store h
  have hcreate : (Progress.mk files phase summary next refused loader synthesizer
      (.resting n senders (u :: units) done)).performAll lang config
        [.writerTurn .take, .writerTurn .start, .number 0, .create 0] =
      some ⟨made, phase, summary, next + 1, refused, loader, synthesizer,
        { status := .working, permits := n, senders := senders, queue := units, running := [(u, .opened next file 0)],
          reaped := done }⟩ := by
    simp [performAll, perform, writerTurn, Progress.number, Progress.create, Stage.resting, Stage.turn, Stage.advance,
      hmade]
  have hend : (Progress.mk (made.writeAt file 0 (Text.encode u.text)) phase summary (next + 1) refused loader synthesizer
      { status := .working, permits := n, senders := senders, queue := units,
        running := [(u, .opened next file (Text.encode u.text).length)], reaped := done }).performAll lang config
        [.endStore 0, .writerTurn (.leave 0), .writerTurn .reap] =
      some ⟨made.writeAt file 0 (Text.encode u.text), phase,
        { summary with filesWritten := summary.filesWritten + 1 }, next + 1, refused, loader, synthesizer,
        .resting n senders units (done ++ [⟨u, none⟩])⟩ := by
    simp [performAll, perform, writerTurn, Progress.endStore, Stage.resting, Stage.turn, Stage.finish]
  exact Leads.trans ⟨_, hcreate⟩ ((leads_fill rfl (FileSystem.writeAt_nil_of_create hmade)).trans ⟨_, hend⟩)

/-- The third stage does not store the next unit, and reports it. -/
theorem leads_refused {u : TestUnit} {units : List TestUnit} {done : List (Finished TestUnit)} {e : GenerationError}
    (h : store lang config.output files next u = .error e) :
    Leads lang config ⟨files, phase, summary, next, refused, loader, synthesizer, .resting n senders (u :: units) done⟩
      ⟨files, phase, summary, next + 1, refused, loader, synthesizer,
        .resting n senders units (done ++ [⟨u, some e⟩])⟩ := by
  obtain ⟨cause, hcause, rfl⟩ := exists_cause_of_store h
  refine ⟨[.writerTurn .take, .writerTurn .start, .number 0, .create 0, .writerTurn (.leave 0), .writerTurn .reap], ?_⟩
  simp [performAll, perform, writerTurn, Progress.number, Progress.create, Stage.resting, Stage.turn, Stage.advance,
    Stage.finish, hcause]

/-- The third stage stores all units, one after the other. -/
theorem leads_stores (units : List TestUnit) {files : FileSystem} {summary : Summary} {next : Nat}
    {done : List (Finished TestUnit)} :
    Leads lang config ⟨files, phase, summary, next, refused, loader, synthesizer, .resting n senders units done⟩
      ⟨(storeFrom lang config.output files next units).2, phase,
        { summary with
          filesWritten :=
            summary.filesWritten + ((storeFrom lang config.output files next units).1.filterMap Except.toOption).length },
        next + units.length, refused, loader, synthesizer,
        .resting n senders []
          (done ++ List.zipWith finishedUnit units (storeFrom lang config.output files next units).1)⟩ := by
  induction units generalizing files summary next done with
  | nil =>
    rw [List.zipWith_nil_left, List.append_nil]
    exact .refl ..
  | cons u units ih =>
    have hnext : next + (u :: units).length = next + 1 + units.length := by
      rw [List.length_cons]
      omega
    rw [hnext]
    cases hstore : store lang config.output files next u with
    | ok after =>
      have hcount (stored : List (Except GenerationError Unit)) : summary.filesWritten +
          ((.ok () :: stored).filterMap Except.toOption).length =
            summary.filesWritten + 1 + (stored.filterMap Except.toOption).length := by
        rw [List.filterMap_cons_some (show Except.toOption (.ok ()) = some () from rfl), List.length_cons]
        omega
      rw [storeFrom_cons_of_ok hstore, hcount, List.zipWith_cons_cons, List.append_cons done]
      exact (leads_stored hstore).trans ih
    | error e =>
      have hnone : Except.toOption (.error e : Except GenerationError Unit) = none := rfl
      rw [storeFrom_cons_of_error hstore, List.filterMap_cons_none hnone, List.zipWith_cons_cons, List.append_cons done]
      exact (leads_refused hstore).trans ih

end Progress

end TestScaffold.Generation
