import MailTemplate.CommandLine.Folder
import MailTemplate.Proofs.Fallible

/-!
# Runs of the Command Line Tool

A run does what it was asked for as a whole, or leaves no trace: all that can go wrong is known
before anything is printed or written.

* `Process.CommitsLast` says so of steps, and `Process.commitsLast_ofArguments` says that those of
  the tool are like this. `Process.CommitsLast.run` is what it means for a run that fails.
* `Process.run_process` holds the steps of an invocation against `Invocation.perform`, and
  `Invocation.isOk_perform_iff` says what these need. Commands that are skipped do not matter.
* `Process.run_ofArguments_eq_none_iff` says which runs never end, `Process.exit_ofArguments_iff`
  which of the others end well, and `Disk.run_deliver` what is then printed or written.
-/

namespace MailTemplate

theorem Exit.code_eq_zero_iff {exit : Exit} : exit.code = 0 ↔ exit = .fine := by
  cases exit <;> decide

theorem Failure.exit_ne_fine (failure : Failure) : failure.exit ≠ .fine := by
  unfold exit
  split <;> exact fun h => nomatch h

namespace Process

variable {φ δ α β : Type} {disk : Disk φ δ} {held : Holding φ δ} {p : Process}
  {outcome : Report × Holding φ δ}

/-! ## Nothing before the end -/

/-- Once something is printed or written, the run ends well. -/
inductive CommitsLast : Process → Prop
  | finish (ending : Ending) : CommitsLast (.finish ending)
  | endless : CommitsLast .endless
  | look (path : String) {next : Entry → Process} (h : ∀ entry, CommitsLast (next entry)) :
    CommitsLast (.look path next)
  | list (problem : String) {next : Process} (h : CommitsLast next) :
    CommitsLast (.list problem next)
  | prepare (path : String) {next : Bool → Process} (h : ∀ isReady, CommitsLast (next isReady)) :
    CommitsLast (.prepare path next)
  | write (path text : String) {next : Bool → Process} (hwritten : next true = .finish .done)
    (hfailed : CommitsLast (next false)) : CommitsLast (.write path text next)
  | print (text : String) : CommitsLast (.print text (.finish .done))

/-- If the run fails, nothing was printed and no file has changed. -/
theorem CommitsLast.run (h : p.CommitsLast) (hrun : p.run disk held = some outcome)
    (hfailed : outcome.1.exit ≠ .fine) :
    outcome.1.printed = "" ∧ outcome.2.files = held.files := by
  induction h generalizing held outcome with
  | finish ending =>
    cases hrun
    exact ⟨rfl, rfl⟩
  | endless => cases hrun
  | look path h ih => exact ih _ hrun hfailed
  | list problem h ih =>
    obtain ⟨later, hlater, heq⟩ := Option.bind_eq_some_iff.1 hrun
    cases heq
    have hsilent := ih hlater hfailed
    exact hsilent
  | @prepare path next h ih =>
    -- Folders are made, but no files.
    have hrest : (next (disk.prepare held path).1).run disk
        { held with folders := (disk.prepare held path).2 } = some outcome := hrun
    have hsilent := ih _ hrest hfailed
    exact hsilent
  | @write path text next hwritten h ih =>
    rw [Process.run] at hrun
    cases hwrite : disk.write? held path text with
    | none =>
      rw [hwrite] at hrun
      exact ih hrun hfailed
    | some files =>
      -- A text that was written is the end of a run that does not fail.
      rw [hwrite, hwritten] at hrun
      cases hrun
      exact absurd rfl hfailed
  | print text =>
    cases hrun
    exact absurd rfl hfailed

theorem commitsLast_fail (failure : Failure) : (fail failure).CommitsLast := by
  unfold fail
  induction failure.problems with
  | nil => exact .finish _
  | cons problem problems ih => exact .list problem ih

theorem commitsLast_settle (result : Except JobFailure α) {next : α → Process}
    (h : ∀ a, (next a).CommitsLast) : (settle result next).CommitsLast := by
  rcases result with (failure | _) | a
  · exact commitsLast_fail failure
  · exact .endless
  · exact h a

theorem commitsLast_read (reader : (String → Entry) → String → Except JobFailure α)
    (path : String) {next : α → Process} (h : ∀ a, (next a).CommitsLast) :
    (read reader path next).CommitsLast :=
  .look path fun _ => commitsLast_settle _ h

theorem commitsLast_settings (usual named : Option String) {next : Settings → Process}
    (h : ∀ settings, (next settings).CommitsLast) : (settings usual named next).CommitsLast := by
  unfold settings
  split
  · exact commitsLast_read readSettings _ h
  · exact h {}
  · refine .look _ fun entry => ?_
    split
    · exact h {}
    · exact commitsLast_read readSettings _ h

theorem commitsLast_job (job : Job) (isPretty : Bool) (title : Option String)
    {next : String → Process} (h : ∀ text, (next text).CommitsLast) :
    (job.process isPretty title next).CommitsLast := by
  cases job with
  | new => exact h _
  | apply tree commands =>
    exact commitsLast_read readTree tree fun _ =>
      commitsLast_read readCommands commands fun _ => commitsLast_settle _ fun _ => h _
  | compile tree => exact commitsLast_read readTree tree fun _ => h _
  | validate tree =>
    refine commitsLast_read readRecords tree fun records => ?_
    split
    · exact h _
    · exact commitsLast_fail _

theorem commitsLast_deliver (product : Product) : product.deliver.CommitsLast := by
  unfold Product.deliver
  split
  · exact .print _
  · refine .prepare _ fun isReady => ?_
    cases isReady with
    | true => exact .write _ _ rfl (commitsLast_fail _)
    | false => exact commitsLast_fail _

theorem commitsLast_stop (stop : Stop) : stop.process.CommitsLast := by
  cases stop with
  | version verb => exact .print _
  | help => exact .print _
  | misuse => exact .finish _

/-- The tool prints or writes last. -/
theorem commitsLast_ofArguments (named usual : Option String) (arguments : List String) :
    (ofArguments named usual arguments).CommitsLast := by
  unfold ofArguments
  split
  · exact commitsLast_stop _
  · exact commitsLast_settings _ _ fun _ => commitsLast_job _ _ _ fun _ => commitsLast_deliver _

/-! ## What the steps come to -/

theorem run_foldr_list (problems : List String) (p : Process) :
    (problems.foldr .list p).run disk held = (p.run disk held).map fun outcome =>
      ({ outcome.1 with problems := problems ++ outcome.1.problems }, outcome.2) := by
  induction problems with
  | nil => exact Option.map_id'.symm
  | cons problem problems ih =>
    rw [List.foldr_cons, run, ih]
    cases p.run disk held <;> rfl

theorem run_fail (failure : Failure) :
    (fail failure).run disk held = some (failure.report, held) := by
  rw [fail, run_foldr_list, run, Option.map_some, List.append_nil]
  rfl

theorem exit_ne_fine_of_run_fail {failure : Failure}
    (hrun : (fail failure).run disk held = some outcome) : outcome.1.exit ≠ .fine := by
  rw [run_fail] at hrun
  cases hrun
  exact failure.exit_ne_fine

theorem run_print (text : String) :
    (Process.print text (.finish .done)).run disk held = some ({ printed := text }, held) :=
  congrArg (fun printed => some (({ printed } : Report), held)) String.append_empty

theorem run_stop (stop : Stop) : stop.process.run disk held = some (stop.report, held) := by
  cases stop with
  | version verb => exact run_print (versionText verb)
  | help => exact run_print usage
  | misuse => rfl

theorem settle_bind (x : Except JobFailure α) (f : α → Except JobFailure β)
    (next : β → Process) : settle (x >>= f) next = settle x fun a => settle (f a) next := by
  rcases x with (failure | _) | a <;> rfl

theorem run_settle_congr (result : Except JobFailure α) {next next' : α → Process}
    (h : ∀ a, (next a).run disk held = (next' a).run disk held) :
    (settle result next).run disk held = (settle result next').run disk held := by
  rcases result with (failure | _) | a
  · rfl
  · rfl
  · exact h a

/-- A reader that uses no more than what is at its path finds it when it is looked up. -/
theorem run_read {reader : (String → Entry) → String → Except JobFailure α} {path : String}
    (hreader : ∀ files, reader (fun _ => files path) path = reader files path)
    (next : α → Process) :
    (read reader path next).run disk held =
      (settle (reader (disk.find held) path) next).run disk held := by
  rw [read, run, hreader]

theorem run_settings (usual named : Option String) (next : Settings → Process) :
    (settings usual named next).run disk held =
      (settle (findSettings (disk.find held) usual named) next).run disk held := by
  cases named with
  | some path => exact run_read (fun _ => rfl) next
  | none =>
    cases usual with
    | none => rfl
    | some path =>
      rw [settings, run, findSettings]
      split
      · rfl
      · exact run_read (fun _ => rfl) next

theorem run_job (job : Job) (isPretty : Bool) (title : Option String) (next : String → Process) :
    (job.process isPretty title next).run disk held =
      (settle (job.perform (disk.find held) isPretty title) next).run disk held := by
  cases job with
  | new => rfl
  | apply tree commands =>
    -- The commands are looked up on the same disk: to look for the tree has not changed it.
    rw [Job.process, Job.perform, run_read (fun _ => rfl), settle_bind]
    refine run_settle_congr _ fun _ => ?_
    rw [run_read (fun _ => rfl), settle_bind]
    refine run_settle_congr _ fun _ => ?_
    rw [settle_bind]
    rfl
  | compile tree =>
    rw [Job.process, Job.perform, run_read (fun _ => rfl), settle_bind]
    rfl
  | validate tree =>
    rw [Job.process, Job.perform, run_read (fun _ => rfl), settle_bind]
    refine run_settle_congr _ fun records => ?_
    cases records.audit with
    | nil => rfl
    | cons violation violations => rfl

/-- The steps of an invocation come to what it gives, which is then delivered. -/
theorem run_process (usual : Option String) (invocation : Invocation) :
    (invocation.process usual).run disk held =
      (settle (invocation.perform (disk.find held) usual) Product.deliver).run disk held := by
  rw [Invocation.process, Invocation.perform, run_settings, settle_bind]
  refine run_settle_congr _ fun settings => ?_
  rw [run_job, settle_bind]
  rfl

end Process

/-! ## Runs that end well -/

/-- The files of a job can be read, and nothing speaks against the records of one that audits. -/
def Job.InOrder (files : String → Entry) : Job → Prop
  | .new => True
  | .apply tree commands =>
    (readTree files tree).isOk = true ∧ (readCommands files commands).isOk = true
  | .compile tree => (readTree files tree).isOk = true
  | .validate tree => ∃ records, readRecords files tree = .ok records ∧ records.audit = []

/-- Unless it never ends, a job gives a text if its files are in order, whatever becomes of the
commands in them. -/
theorem Job.isOk_perform_iff {files : String → Entry} {isPretty : Bool} {title : Option String}
    {job : Job} (hends : job.perform files isPretty title ≠ .error .endless) :
    (job.perform files isPretty title).isOk = true ↔ job.InOrder files := by
  cases job with
  | new => exact iff_of_true rfl trivial
  | apply tree commands =>
    rw [perform] at hends ⊢
    rw [isOk_bind_iff, InOrder, isOk_iff_exists]
    constructor
    · rintro ⟨start, hstart, hrest⟩
      obtain ⟨list, hlist, -⟩ := isOk_bind_iff.1 hrest
      exact ⟨⟨start, hstart⟩, isOk_iff_exists.2 ⟨list, hlist⟩⟩
    · rintro ⟨⟨start, hstart⟩, hcommands⟩
      obtain ⟨list, hlist⟩ := isOk_iff_exists.1 hcommands
      refine ⟨start, hstart, isOk_bind_iff.2 ⟨list, hlist, ?_⟩⟩
      -- What is left can only be without end.
      rw [hstart, ok_bind, hlist, ok_bind, runCommands] at hends
      rw [runCommands]
      cases hrun : ((Session.start start).applyAll list).map Session.tree with
      | none =>
        rw [hrun] at hends
        exact absurd rfl hends
      | some edited => rfl
  | compile tree =>
    rw [perform, isOk_bind_iff, InOrder, isOk_iff_exists]
    exact exists_congr fun _ => and_iff_left rfl
  | validate tree =>
    rw [perform, isOk_bind_iff, InOrder]
    refine exists_congr fun records => and_congr_right fun _ => ?_
    cases records.audit with
    | nil => exact iff_of_true rfl rfl
    | cons violation violations => exact iff_of_false Bool.false_ne_true (List.cons_ne_nil _ _)

theorem Invocation.isOk_perform_iff {files : String → Entry} {usual : Option String}
    {invocation : Invocation} (hends : invocation.perform files usual ≠ .error .endless) :
    (invocation.perform files usual).isOk = true ↔
      (findSettings files usual invocation.config).isOk = true ∧ invocation.job.InOrder files := by
  rw [perform] at hends ⊢
  rw [isOk_bind_iff, isOk_iff_exists (x := findSettings files usual invocation.config),
    ← exists_and_right]
  refine exists_congr fun settings => and_congr_right fun hsettings => ?_
  rw [hsettings, ok_bind, ne_eq, bind_pure_eq_error_iff] at hends
  -- The settings tell how the text is made, but not whether it can be.
  rw [isOk_bind_iff, ← Job.isOk_perform_iff hends, isOk_iff_exists]
  exact exists_congr fun _ => and_iff_left rfl

namespace Disk

variable {φ δ : Type} (disk : Disk φ δ) (held : Holding φ δ)

/-- A product is to be printed, or can be written to its path. -/
def Accepts (product : Product) : Prop :=
  ∀ path, product.output = some path →
    (disk.prepare held path).1 = true ∧
      (disk.write? { held with folders := (disk.prepare held path).2 } path product.text).isSome

/-- A product was printed, or written to its path. -/
inductive Served : Product → Report × Holding φ δ → Prop
  | printed (text : String) : Served { text, output := none } (.ofText text, held)
  | written {path text : String} {folders : δ} {files : φ}
    (hprepare : disk.prepare held path = (true, folders))
    (hwrite : disk.write? { held with folders } path text = some files) :
    Served { text, output := some path } ({}, { files, folders })

/-- What a run needs: arguments that ask for something, settings and files that are in order, and a
place for the product. -/
def Grants (named usual : Option String) (arguments : List String) : Prop :=
  match Invocation.ofArguments named arguments with
  | .error stop => stop ≠ .misuse
  | .ok invocation =>
    ((findSettings (disk.find held) usual invocation.config).isOk = true ∧
        invocation.job.InOrder (disk.find held)) ∧
      ∀ product, invocation.perform (disk.find held) usual = .ok product →
        disk.Accepts held product

variable {disk held} {outcome : Report × Holding φ δ}

theorem Served.exit_eq {product : Product} (h : disk.Served held product outcome) :
    outcome.1.exit = .fine := by
  cases h <;> rfl

theorem run_deliver_of_not_accepts {text path : String}
    (h : ¬ disk.Accepts held { text, output := some path }) :
    (Product.deliver { text, output := some path }).run disk held =
      (Process.fail (.unwritable path)).run disk
        { held with folders := (disk.prepare held path).2 } := by
  simp only [Product.deliver, Process.run]
  cases hready : (disk.prepare held path).1 with
  | false => rfl
  | true =>
    rw [if_pos rfl, Process.run]
    cases hwrite : disk.write? { held with folders := (disk.prepare held path).2 } path text with
    | none => rfl
    | some files =>
      refine absurd (fun other heq => ?_) h
      cases heq
      exact ⟨hready, Option.isSome_iff_exists.2 ⟨files, hwrite⟩⟩

/-- A product is printed or written if the disk takes it, and if not, the run fails. -/
theorem run_deliver (disk : Disk φ δ) (held : Holding φ δ) (product : Product) :
    ∃ outcome, product.deliver.run disk held = some outcome ∧
      (disk.Accepts held product ∧ disk.Served held product outcome ∨
        ¬ disk.Accepts held product ∧ outcome.1.exit ≠ .fine) := by
  obtain ⟨text, output⟩ := product
  cases output with
  | none => exact ⟨_, Process.run_print (text ++ "\n"), .inl ⟨nofun, .printed text⟩⟩
  | some path =>
    by_cases haccepts : disk.Accepts held { text, output := some path }
    · obtain ⟨hready, hwrite⟩ := haccepts path rfl
      obtain ⟨files, hfiles⟩ := Option.isSome_iff_exists.1 hwrite
      have hwritten : (Product.deliver { text, output := some path }).run disk held =
          some ({}, { files, folders := (disk.prepare held path).2 }) := by
        simp only [Product.deliver, Process.run, hready, if_true, hfiles]
        rfl
      exact ⟨_, hwritten, .inl ⟨haccepts, .written (Prod.ext hready rfl) hfiles⟩⟩
    · exact ⟨_, (run_deliver_of_not_accepts haccepts).trans (Process.run_fail _),
        .inr ⟨haccepts, (Failure.unwritable path).exit_ne_fine⟩⟩

theorem served_deliver {product : Product} (h : disk.Accepts held product)
    (hrun : product.deliver.run disk held = some outcome) :
    disk.Served held product outcome := by
  obtain ⟨_, hrun', ⟨-, hserved⟩ | ⟨hrefused, -⟩⟩ := run_deliver disk held product
  · cases hrun'.symm.trans hrun
    exact hserved
  · exact absurd h hrefused

/-- The product of a job is delivered just if the disk takes it. -/
theorem exit_deliver_iff {product : Product}
    (hrun : product.deliver.run disk held = some outcome) :
    outcome.1.exit = .fine ↔ disk.Accepts held product := by
  obtain ⟨_, hrun', ⟨haccepts, hserved⟩ | ⟨hrefused, hfailed⟩⟩ := run_deliver disk held product
  · cases hrun'.symm.trans hrun
    exact iff_of_true hserved.exit_eq haccepts
  · cases hrun'.symm.trans hrun
    exact iff_of_false hfailed hrefused

end Disk

namespace Process

variable {φ δ : Type} {disk : Disk φ δ} {held : Holding φ δ} {outcome : Report × Holding φ δ}

/-- An invocation never ends just if it gives nothing and does not fail either. -/
theorem run_process_eq_none_iff (usual : Option String) (invocation : Invocation) :
    (invocation.process usual).run disk held = none ↔
      invocation.perform (disk.find held) usual = .error .endless := by
  rw [run_process]
  rcases invocation.perform (disk.find held) usual with (failure | _) | product
  · rw [settle, run_fail]
    exact iff_of_false (fun h => nomatch h) fun h => nomatch h
  · exact iff_of_true rfl rfl
  · obtain ⟨outcome, hrun, -⟩ := Disk.run_deliver disk held product
    rw [settle, hrun]
    exact iff_of_false (fun h => nomatch h) fun h => nomatch h

theorem run_ofArguments_eq_none_iff (named usual : Option String) (arguments : List String) :
    (ofArguments named usual arguments).run disk held = none ↔
      ∃ invocation, Invocation.ofArguments named arguments = .ok invocation ∧
        invocation.perform (disk.find held) usual = .error .endless := by
  unfold ofArguments
  cases Invocation.ofArguments named arguments with
  | ok invocation =>
    dsimp only
    rw [run_process_eq_none_iff]
    exact ⟨fun h => ⟨invocation, rfl, h⟩, fun ⟨_, heq, h⟩ => Except.ok.inj heq ▸ h⟩
  | error stop =>
    dsimp only
    rw [run_stop]
    exact iff_of_false (fun h => nomatch h) fun ⟨_, heq, _⟩ => nomatch heq

/-- An invocation that ends does so well just if it gives a product and the disk takes it. -/
theorem exit_process_iff {usual : Option String} {invocation : Invocation}
    (hrun : (invocation.process usual).run disk held = some outcome) :
    outcome.1.exit = .fine ↔
      ((findSettings (disk.find held) usual invocation.config).isOk = true ∧
          invocation.job.InOrder (disk.find held)) ∧
        ∀ product, invocation.perform (disk.find held) usual = .ok product →
          disk.Accepts held product := by
  have hends : invocation.perform (disk.find held) usual ≠ .error .endless := by
    rw [ne_eq, ← run_process_eq_none_iff, hrun]
    exact fun h => nomatch h
  rw [← Invocation.isOk_perform_iff hends]
  rw [run_process] at hrun
  rcases hperform : invocation.perform (disk.find held) usual with (failure | _) | product
  · rw [hperform, settle] at hrun
    exact iff_of_false (exit_ne_fine_of_run_fail hrun) fun h => Bool.false_ne_true h.1
  · exact absurd hperform hends
  · rw [hperform, settle] at hrun
    rw [Disk.exit_deliver_iff hrun]
    refine ⟨fun h => ⟨rfl, fun product' heq => ?_⟩, fun h => h.2 product rfl⟩
    cases heq
    exact h

theorem exit_ofArguments_iff {named usual : Option String} {arguments : List String}
    (hrun : (ofArguments named usual arguments).run disk held = some outcome) :
    outcome.1.exit = .fine ↔ disk.Grants held named usual arguments := by
  unfold ofArguments at hrun
  unfold Disk.Grants
  cases hparsed : Invocation.ofArguments named arguments with
  | ok invocation =>
    rw [hparsed] at hrun
    exact exit_process_iff hrun
  | error stop =>
    rw [hparsed] at hrun
    dsimp only at hrun
    rw [run_stop] at hrun
    cases hrun
    cases stop with
    | misuse => exact iff_of_false (fun h => nomatch h) fun h => h rfl
    | _ => exact iff_of_true rfl fun h => nomatch h

/-- What was served is the product of the job. -/
theorem exists_served {usual : Option String} {invocation : Invocation}
    (hrun : (invocation.process usual).run disk held = some outcome)
    (hfine : outcome.1.exit = .fine) :
    ∃ product, invocation.perform (disk.find held) usual = .ok product ∧
      disk.Served held product outcome := by
  obtain ⟨-, haccepts⟩ := (exit_process_iff hrun).1 hfine
  rw [run_process] at hrun
  rcases hperform : invocation.perform (disk.find held) usual with (failure | _) | product
  · rw [hperform] at hrun
    exact absurd hfine (exit_ne_fine_of_run_fail hrun)
  · rw [hperform] at hrun
    cases hrun
  · rw [hperform] at hrun
    exact ⟨product, rfl, Disk.served_deliver (haccepts product hperform) hrun⟩

/-- A run that ends does all that it is asked for or leaves no trace. If its exit code is not zero,
nothing was printed and every file is as before; at most, folders were made on the way to one that
could not be written. This happens only if the arguments, the settings, the files of the job or the
place for its product are at fault: commands that are skipped are no failure. Else the product of
the job was printed or written as a whole. A run never ends just if its job gives no text and does
not fail either. -/
theorem ofArguments_all_or_nothing (disk : Disk φ δ) (held : Holding φ δ)
    (named usual : Option String) (arguments : List String) :
    let run := (ofArguments named usual arguments).run disk held
    (∀ outcome, run = some outcome →
      (outcome.1.exit.code ≠ 0 → outcome.1.printed = "" ∧ outcome.2.files = held.files) ∧
        (outcome.1.exit.code = 0 ↔ disk.Grants held named usual arguments) ∧
        ∀ invocation, Invocation.ofArguments named arguments = .ok invocation →
          outcome.1.exit.code = 0 →
          ∃ product, invocation.perform (disk.find held) usual = .ok product ∧
            disk.Served held product outcome) ∧
      (run = none ↔ ∃ invocation, Invocation.ofArguments named arguments = .ok invocation ∧
        invocation.perform (disk.find held) usual = .error .endless) := by
  intro run
  refine ⟨fun outcome hrun => ?_, run_ofArguments_eq_none_iff named usual arguments⟩
  rw [ne_eq, Exit.code_eq_zero_iff]
  refine ⟨(commitsLast_ofArguments named usual arguments).run hrun, exit_ofArguments_iff hrun,
    fun invocation hinvocation hfine => ?_⟩
  have hprocess : ofArguments named usual arguments = invocation.process usual := by
    rw [ofArguments, hinvocation]
  exact exists_served (hprocess ▸ hrun) hfine

/-- Commands that cannot be read leave the tree that was to be overwritten as it is. -/
example :
    let folder : Folder := ⟨[(["tree"], "\x7b\x7d"), (["list"], "[\x7b\x7d]")]⟩
    folder.run none none ["apply", "tree", "list", "-o", "tree"] =
      some ({ exit := .failed }, folder) := by
  decide +kernel

/-- The root cannot be removed, but the run ends well. -/
example :
    let folder : Folder :=
      ⟨[(["tree"], "\x7b\x7d"), (["list"], "[[\"removeComponent\", \"root\"]]")]⟩
    (folder.run none none ["apply", "tree", "list", "-o", "tree"]).map (·.1.exit) =
      some .fine := by
  decide +kernel

end Process

end MailTemplate
