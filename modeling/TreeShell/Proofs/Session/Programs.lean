import TreeShell.Proofs.Session.Actions
import TreeShell.Utility

/-!
# What commands may do

Each of the commands that every session has writes to its two outputs, and otherwise does only what
is its own: `cd` changes the working directory, `cp` copies, and so on. It exits with success, with
failure or with the code of wrong use.
-/

namespace TreeShell

/-- Whether a program is for looking into a session only. -/
def Program.isDiagnostic : Program → Bool
  | .diagnostic _ => true
  | _ => false

/-- What a program may do to a job that it is run in with a context. -/
def Program.MayDo (p : Program) (ctx : Context) : Effect → Prop
  | .write stream _ => stream = ctx.ends.output ∨ stream = ctx.ends.errors
  | .read stream => stream = ctx.ends.input ∧ (p = .cat ∨ p = .wc ∨ p = .grep)
  | .edit cwd e => cwd = ctx.cwd ∧
    match e with
    | .write .. => False
    | .createDirectory _ | .makeDirectories _ => p = .mkdir
    | .touch _ => p = .touch
    | .delete .. => p = .rm
    | .move .. => p = .mv
  | .copy cwd _ _ => cwd = ctx.cwd ∧ p = .cp
  | .enter _ => p = .cd
  | .assign name value =>
    p = .export ∧ ∃ word ∈ ctx.words, Text.assignment word = (name, some value)
  | .setAlias .. => p = .alias
  | .removeAlias _ => p = .unalias
  | .clear => p = .clear
  | .note level source _ => level = .warning ∧ source = .loader ∧ p = .help
  | .openKeeping _ | .openFile .. => False

/-- Nothing that a program may do writes anything but texts, or what a file holds, into files. -/
theorem Program.MayDo.plain {p : Program} {ctx : Context} {e : Effect} (h : p.MayDo ctx e) :
    e.Plain := by
  cases e with
  | edit cwd e =>
    cases e with
    | write path content append => exact h.2.elim
    | _ => trivial
  | _ => trivial

/-- The codes that commands exit with. -/
def IsExitCode (code : Int) : Prop :=
  code = Action.success ∨ code = Action.failure ∨ code = Action.usage

theorem isExitCode_success : IsExitCode Action.success := Or.inl rfl

theorem isExitCode_failure : IsExitCode Action.failure := Or.inr (Or.inl rfl)

theorem isExitCode_usage : IsExitCode Action.usage := Or.inr (Or.inr rfl)

/-- Commands that go through operands succeed or fail, and do not tell wrong use. -/
theorem isExitCode_of_done {code : Int} (h : code = Action.success ∨ code = Action.failure) :
    IsExitCode code :=
  h.imp_right Or.inl

namespace Utility

open TreeShell.Action

variable {p : Program} {ctx : Context}

/-! ## What all commands do -/

/-- Every command may write to its output. -/
theorem within_put (text : String) : Within (p.MayDo ctx) (fun _ => True) (put ctx text) :=
  .write (Or.inl rfl)

theorem within_putLine (line : String) : Within (p.MayDo ctx) (fun _ => True) (putLine ctx line) :=
  within_put _

/-- Every command may write to its errors. -/
theorem within_complain (line : String) :
    Within (p.MayDo ctx) (fun _ => True) (complain ctx line) :=
  .write (Or.inr rfl)

/-- What the tree refuses is reported on the errors. -/
theorem within_orComplain {action : Action Unit} {words : PathError → String}
    (h : Within (p.MayDo ctx) (fun _ => True) action) :
    Within (p.MayDo ctx) (fun _ => True) (orComplain ctx words action) := by
  refine h.attempt.bind fun r _ => ?_
  cases r with
  | ok _ => exact .pure trivial
  | error e => exact (within_complain _).andThen fun _ => .pure trivial

/-- To complain and exit with a code. -/
theorem within_complain_return {line : String} {code : Int} (h : IsExitCode code) :
    Within (p.MayDo ctx) IsExitCode (do complain ctx line; return code) :=
  (within_complain _).andThen fun _ => .pure h

/-- To write and succeed. -/
theorem within_put_return {text : String} :
    Within (p.MayDo ctx) IsExitCode (do put ctx text; return success) :=
  (within_put _).andThen fun _ => .pure isExitCode_success

/-- To go through operands is to do what is done for each, and to succeed or to fail. -/
theorem within_each {α : Type} {action : α → Action Bool} {l : List α}
    (h : ∀ a, Within (p.MayDo ctx) (fun _ => True) (action a)) :
    Within (p.MayDo ctx) IsExitCode (each action l) :=
  (Within.each fun a _ => h a).weaken fun _ => isExitCode_of_done

/-! ## Commands on nodes -/

/-- The lines of a listing come from questions to the tree; a date that there is none of ends it. -/
theorem within_listDirectory (owner path : String) :
    Within (p.MayDo ctx) (fun _ => True) (listDirectory ctx owner path) := by
  unfold listDirectory
  refine (Within.ask _).andThen fun names => ?_
  dsimp only
  refine Within.andThen (Within.forIn fun name _ => ?_) fun _ => .pure trivial
  refine (Within.ask _).andThen fun info => (Within.lift _).andThen fun line => ?_
  exact (within_putLine _).andThen fun _ => .pure trivial

/-- An operand that is not there is reported, and the others are listed. -/
theorem within_listOperand (owner : String) (several : Bool) (index : Nat) (path : String) :
    Within (p.MayDo ctx) (fun _ => True) (listOperand ctx owner several index path) := by
  unfold listOperand
  refine (Within.ask _).attempt.bind fun r _ => ?_
  cases r with
  | error e => exact (within_complain _).andThen fun _ => .pure trivial
  | ok info =>
    dsimp only
    split
    · have hlist : Within (p.MayDo ctx) (fun _ => True)
          (do listDirectory ctx owner path; return true) :=
        (within_listDirectory owner path).andThen fun _ => .pure trivial
      split
      · split
        · refine (within_put _).andThen fun _ => ?_
          exact (within_put _).andThen fun _ => hlist
        · exact (within_put _).andThen fun _ => hlist
      · exact hlist
    · refine (Within.lift _).andThen fun line => ?_
      exact (within_putLine _).andThen fun _ => .pure trivial

/-- A listing only writes. -/
theorem within_ls : Within (p.MayDo ctx) IsExitCode (ls ctx) := by
  unfold ls
  exact within_each fun operand => within_listOperand _ _ _ _

/-- Commands with a destination do only what they do for each of their sources. -/
theorem within_withDestination {name : String} {action : Bool → String → String → Action Unit}
    (h : ∀ b source destination,
      Within (p.MayDo ctx) (fun _ => True) (action b source destination)) :
    Within (p.MayDo ctx) IsExitCode (withDestination ctx name action) := by
  unfold withDestination
  split
  · exact within_put_return
  · split
    · exact within_complain_return isExitCode_failure
    · refine Within.session.andThen fun s => ?_
      dsimp only
      split
      · exact within_complain_return isExitCode_failure
      · exact within_each fun source => within_orComplain (h _ source _)

/-- To read a file and write it elsewhere is to copy it. -/
theorem within_copy (hp : p = .cp) (source landing : String) :
    Within (p.MayDo ctx) (fun _ => True) (do
      let content ← ask fun t => t.content source ctx.cwd
      edit ctx.cwd (.write landing content false)) := by
  intro j
  have hcopy := Steps.single (e := .copy ctx.cwd source landing)
    (show p.MayDo ctx _ from ⟨rfl, hp⟩) j
  rw [result_bind, result_ask]
  rw [Effect.apply] at hcopy
  cases hc : j.session.volume.tree.content source ctx.cwd with
  | error e => exact ⟨.refl j, fun _ ha => by cases ha⟩
  | ok content =>
    rw [hc] at hcopy
    dsimp only at hcopy ⊢
    rw [edit, result_allow]
    generalize hv : j.session.volume.perform ctx.cwd _ = performed
    rw [Job.edit, Job.mapSession, hv] at hcopy
    obtain ⟨outcome, volume⟩ := performed
    cases outcome with
    | ok _ => exact ⟨hcopy, fun _ _ => trivial⟩
    | error e => exact ⟨hcopy, fun _ _ => trivial⟩

/-- Copies put what files hold into files. -/
theorem within_cp (hp : p = .cp) : Within (p.MayDo ctx) IsExitCode (cp ctx) :=
  within_withDestination fun _ source _ => within_copy hp source _

/-- Moves edit the tree by moves alone. -/
theorem within_mv (hp : p = .mv) : Within (p.MayDo ctx) IsExitCode (mv ctx) :=
  within_withDestination fun _ _ _ => .edit ⟨rfl, hp⟩

/-- An operand is not removed, or by one deletion of its path; a refusal may be passed over. -/
theorem within_removeOperand (hp : p = .rm) (path : String) :
    Within (p.MayDo ctx) (fun _ => True) (removeOperand ctx path) := by
  unfold removeOperand
  split
  · exact (within_complain _).andThen fun _ => .pure trivial
  · have hdelete : Within (p.MayDo ctx) (fun _ => True)
        (edit ctx.cwd (.delete path (ctx.flag ["r", "R", "recursive"]))) := .edit ⟨rfl, hp⟩
    refine hdelete.attempt.bind fun r _ => ?_
    cases r with
    | ok _ => exact .pure trivial
    | error e =>
      dsimp only
      split
      · exact .pure trivial
      · exact (within_complain _).andThen fun _ => .pure trivial

/-- Removals edit the tree by deletions alone. -/
theorem within_rm (hp : p = .rm) : Within (p.MayDo ctx) IsExitCode (rm ctx) := by
  unfold rm
  split
  · exact within_put_return
  · exact within_each fun path => within_removeOperand hp path

/-- Commands that need operands do only what they do for each of them. -/
theorem within_eachOperand {missing : String} {words : String → String}
    {action : String → Action Unit}
    (h : ∀ path, Within (p.MayDo ctx) (fun _ => True) (action path)) :
    Within (p.MayDo ctx) IsExitCode (eachOperand ctx missing words action) := by
  unfold eachOperand
  split
  · exact within_complain_return isExitCode_failure
  · exact within_each fun path => within_orComplain (h path)

/-- Directories are made one by one, or with all that are missing above them. -/
theorem within_mkdir (hp : p = .mkdir) : Within (p.MayDo ctx) IsExitCode (mkdir ctx) := by
  refine within_eachOperand fun path => ?_
  split
  · exact .edit ⟨rfl, hp⟩
  · exact .edit ⟨rfl, hp⟩

/-- Files are made, or their times noted, one by one. -/
theorem within_touch (hp : p = .touch) : Within (p.MayDo ctx) IsExitCode (touch ctx) :=
  within_eachOperand fun _ => .edit ⟨rfl, hp⟩

/-- To tell about a node is to ask the tree and to write. -/
theorem within_statOperand (path : String) :
    Within (p.MayDo ctx) (fun _ => True) (statOperand ctx path) := by
  unfold statOperand
  refine (Within.ask _).attempt.bind fun r _ => ?_
  cases r with
  | error e => exact (within_complain _).andThen fun _ => .pure trivial
  | ok info =>
    refine (Within.lift _).andThen fun text => ?_
    exact (within_put _).andThen fun _ => .pure trivial

theorem within_stat : Within (p.MayDo ctx) IsExitCode (stat ctx) := by
  unfold stat
  split
  · exact within_complain_return isExitCode_failure
  · exact within_each within_statOperand

/-! ## Commands on texts -/

/-- Only the commands on texts read their input. -/
theorem within_read (hp : p = .cat ∨ p = .wc ∨ p = .grep) :
    Within (p.MayDo ctx) (fun _ => True) (read ctx.ends.input) :=
  .read ⟨rfl, hp⟩

/-- A dash stands for the input, which is printed. -/
theorem within_copyInput (hp : p = .cat) :
    Within (p.MayDo ctx) (fun _ => True) (copyInput ctx) :=
  (within_read (Or.inl hp)).andThen fun _ => within_put _

/-- What an operand holds is asked of the tree, and printed. -/
theorem within_catOperand (hp : p = .cat) (path : String) :
    Within (p.MayDo ctx) (fun _ => True) (catOperand ctx path) := by
  unfold catOperand
  split
  · exact (within_copyInput hp).andThen fun _ => .pure trivial
  · exact within_orComplain ((Within.ask _).andThen fun _ => within_put _)

/-- To print operands edits nothing. -/
theorem within_cat (hp : p = .cat) : Within (p.MayDo ctx) IsExitCode (cat ctx) := by
  unfold cat
  split
  · exact (within_copyInput hp).andThen fun _ => .pure isExitCode_success
  · exact within_each (within_catOperand hp)

theorem within_echo : Within (p.MayDo ctx) IsExitCode (echo ctx) := by
  unfold echo
  exact within_put_return

/-- What several files hold is asked of the tree; the first that is refused is reported. -/
theorem within_contents (name : String) (paths : List String) :
    Within (p.MayDo ctx) (fun _ => True) (contents ctx name paths) := by
  induction paths with
  | nil => exact .pure trivial
  | cons path rest ih =>
    rw [contents]
    refine Within.session.andThen fun s => ?_
    split
    · exact (within_complain _).andThen fun _ => .pure trivial
    · exact ih.andThen fun _ => .pure trivial

/-- Without operands the input is read. -/
theorem within_inputs (hp : p = .cat ∨ p = .wc ∨ p = .grep) (name : String)
    (paths : List String) : Within (p.MayDo ctx) (fun _ => True) (inputs ctx name paths) := by
  unfold inputs
  split
  · exact (within_read hp).andThen fun _ => .pure trivial
  · exact within_contents name paths

/-- To count reads and writes only. -/
theorem within_wc (hp : p = .wc) : Within (p.MayDo ctx) IsExitCode (wc ctx) := by
  unfold wc
  refine (within_inputs (Or.inr (Or.inl hp)) _ _).andThen fun r => ?_
  cases r with
  | none => exact .pure isExitCode_failure
  | some contents =>
    refine Within.andThen (Within.forIn fun entry _ => ?_) fun _ => .pure isExitCode_success
    refine (Within.need _).andThen fun text => ?_
    exact (within_putLine _).andThen fun _ => .pure trivial

/-- To choose lines reads and writes only, and may tell wrong use. -/
theorem within_grep (hp : p = .grep) : Within (p.MayDo ctx) IsExitCode (grep ctx) := by
  unfold grep
  split
  · exact within_complain_return isExitCode_usage
  · refine (within_inputs (Or.inr (Or.inr hp)) _ _).andThen fun r => ?_
    cases r with
    | none => exact .pure isExitCode_usage
    | some contents =>
      refine Within.andThen (Within.forIn fun entry _ => ?_) fun _ => ?_
      · refine (Within.need _).andThen fun text => ?_
        refine Within.andThen (Within.forIn fun line _ => ?_) fun _ => .pure trivial
        exact (within_putLine _).andThen fun _ => .pure trivial
      · dsimp only
        split
        · exact .pure isExitCode_failure
        · exact .pure isExitCode_success

/-! ## Commands on the session -/

/-- The working directory is changed by this command alone, if at all. -/
theorem within_cd (hp : p = .cd) : Within (p.MayDo ctx) IsExitCode (cd ctx) := by
  unfold cd
  refine Within.atSession fun j => ?_
  have hstep := Steps.single (e := .enter (ctx.arguments.headD "~"))
    (show p.MayDo ctx _ from hp) j
  rw [Effect.apply] at hstep
  cases hc : j.session.changeDirectory (ctx.arguments.headD "~") with
  | mk outcome s =>
    rw [Job.mapSession, hc] at hstep
    cases outcome with
    | ok _ => exact Within.from_change hstep (.pure isExitCode_success)
    | error e =>
      cases e with
      | path e => exact within_complain_return isExitCode_failure j
      | outside given home => exact within_complain_return isExitCode_failure j

theorem within_pwd : Within (p.MayDo ctx) IsExitCode (pwd ctx) :=
  (within_putLine _).andThen fun _ => .pure isExitCode_success

theorem within_whoami : Within (p.MayDo ctx) IsExitCode (whoami ctx) :=
  (within_putLine _).andThen fun _ => .pure isExitCode_success

/-- To look for the command of a name is to note at most that there is none. -/
theorem steps_loadCommand (hp : p = .help) (ctx : Context) (name bin : String) (j : Job) :
    Steps (p.MayDo ctx) j (j.mapSession fun s =>
      { s with volume := (j.session.volume.loadCommand j.session.registry name bin).2 }) := by
  unfold Volume.loadCommand
  split
  · exact .refl j
  · exact .refl j
  · exact .single (e := .note .warning .loader _) ⟨rfl, rfl, hp⟩ j

/-- A unit file that names no command is noted when the commands are listed. -/
theorem within_help (hp : p = .help) : Within (p.MayDo ctx) IsExitCode (help ctx) := by
  unfold help
  refine (within_put _).andThen fun _ => Within.session.andThen fun s => ?_
  refine Within.andThen (Within.forIn fun name _ => Within.atSession fun j => ?_) fun _ =>
    within_put_return
  have hsteps := steps_loadCommand hp ctx name (ctx.env.getD "PATH" "") j
  cases hload : j.session.volume.loadCommand j.session.registry name (ctx.env.getD "PATH" "") with
  | mk outcome volume =>
    rw [hload] at hsteps
    refine Within.from_change hsteps ?_
    cases outcome with
    | ok c => exact (within_putLine _).andThen fun _ => .pure trivial
    | error e =>
      cases e with
      | content e => exact (Within.throw _).andThen fun _ => .pure trivial
      | _ => exact .pure trivial

/-- The display is cleared by this command alone. -/
theorem within_clear (hp : p = .clear) : Within (p.MayDo ctx) IsExitCode (clear ctx) := by
  refine Within.andThen (Within.change (e := .clear) hp fun _ => rfl) fun _ => ?_
  exact .pure isExitCode_success

/-- To list the variables only writes. -/
theorem within_env : Within (p.MayDo ctx) IsExitCode (env ctx) := by
  unfold env
  refine Within.andThen (Within.forIn fun entry _ => ?_) fun _ => .pure isExitCode_success
  exact (within_putLine _).andThen fun _ => .pure trivial

/-- A variable that is set was given a value in one of the words; the first word that cannot be
taken ends the command. -/
theorem within_exportAll (hp : p = .export) {words : List String}
    (hwords : ∀ word ∈ words, word ∈ ctx.words) :
    Within (p.MayDo ctx) IsExitCode (exportAll ctx words) := by
  induction words with
  | nil => exact .pure isExitCode_success
  | cons word rest ih =>
    rw [exportAll]
    split
    · exact within_complain_return isExitCode_failure
    · rename_i name value hassign
      refine Within.atSession fun j => ?_
      have hword : word ∈ ctx.words := hwords word List.mem_cons_self
      have hstep := Steps.single (e := .assign name value)
        (show p.MayDo ctx _ from ⟨hp, word, hword, hassign⟩) j
      rw [Effect.apply, Job.mapSession] at hstep
      cases hset : j.session.env.set? name value with
      | none => exact within_complain_return isExitCode_failure j
      | some env =>
        rw [hset] at hstep
        exact Within.from_change hstep (ih fun w hw => hwords w (List.mem_cons_of_mem word hw))

/-- Without words the variables are listed. -/
theorem within_exportOrList (hp : p = .export) :
    Within (p.MayDo ctx) IsExitCode (exportOrList ctx) := by
  unfold exportOrList
  split
  · exact within_env
  · exact within_exportAll hp fun _ hword => hword

/-- At most one alias is defined. -/
theorem within_aliasOrList (hp : p = .alias) :
    Within (p.MayDo ctx) IsExitCode (aliasOrList ctx) := by
  unfold aliasOrList
  split
  · refine Within.session.andThen fun s => ?_
    refine Within.andThen (Within.forIn fun entry _ => ?_) fun _ => .pure isExitCode_success
    exact (within_putLine _).andThen fun _ => .pure trivial
  · split
    · split
      · refine Within.andThen (Within.change (e := .setAlias _ _) hp fun _ => rfl) fun _ => ?_
        exact .pure isExitCode_success
      · exact within_complain_return isExitCode_failure
    · exact within_complain_return isExitCode_failure

/-- Aliases are removed one by one; a name that has none is reported. -/
theorem within_unalias (hp : p = .unalias) : Within (p.MayDo ctx) IsExitCode (unalias ctx) := by
  unfold unalias
  split
  · exact within_complain_return isExitCode_failure
  · refine within_each fun name => Within.atSession fun j => ?_
    have hstep := Steps.single (e := .removeAlias name) (show p.MayDo ctx _ from hp) j
    rw [Effect.apply] at hstep
    refine Within.from_change hstep ?_
    split
    · exact .pure trivial
    · exact (within_complain _).andThen fun _ => .pure trivial

theorem within_history : Within (p.MayDo ctx) IsExitCode (history ctx) := by
  unfold history
  refine Within.session.andThen fun s => ?_
  refine Within.andThen (Within.forIn fun entry _ => ?_) fun _ => .pure isExitCode_success
  exact (within_putLine _).andThen fun _ => .pure trivial

/-- To print the journal only writes, and may tell wrong use. -/
theorem within_dmesg : Within (p.MayDo ctx) IsExitCode (dmesg ctx) := by
  unfold dmesg
  split
  · exact within_complain_return isExitCode_usage
  · refine Within.session.andThen fun s => ?_
    refine Within.andThen (Within.forIn fun entry _ => ?_) fun _ => .pure isExitCode_success
    exact (within_putLine _).andThen fun _ => .pure trivial

end Utility

/-- What a program that every session has does, and the codes it exits with. -/
theorem Program.within_run {p : Program} (h : p.isDiagnostic = false) (ctx : Context) :
    Action.Within (p.MayDo ctx) IsExitCode (p.run ctx) := by
  cases p with
  | ls => exact Utility.within_ls
  | cat => exact Utility.within_cat rfl
  | cp => exact Utility.within_cp rfl
  | mv => exact Utility.within_mv rfl
  | rm => exact Utility.within_rm rfl
  | mkdir => exact Utility.within_mkdir rfl
  | touch => exact Utility.within_touch rfl
  | stat => exact Utility.within_stat
  | cd => exact Utility.within_cd rfl
  | pwd => exact Utility.within_pwd
  | echo => exact Utility.within_echo
  | whoami => exact Utility.within_whoami
  | help => exact Utility.within_help rfl
  | clear => exact Utility.within_clear rfl
  | wc => exact Utility.within_wc rfl
  | grep => exact Utility.within_grep rfl
  | env => exact Utility.within_env
  | «export» => exact Utility.within_exportOrList rfl
  | «alias» => exact Utility.within_aliasOrList rfl
  | unalias => exact Utility.within_unalias rfl
  | history => exact Utility.within_history
  | dmesg => exact Utility.within_dmesg
  | diagnostic d => cases h

end TreeShell
