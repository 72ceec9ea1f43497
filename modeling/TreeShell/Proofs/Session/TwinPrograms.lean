import TreeShell.Proofs.Session.Programs
import TreeShell.Proofs.Session.Twins

/-!
# Commands with and without a pipe

Each of the commands that every session has does the same whether its output is a pipe or that of
the line, but for `cat` when its input is the pipe: for a dash after other operands it prints what
it has written itself, as far as this is still there.
-/

namespace TreeShell

namespace Context

variable (ctx : Context) (σ : Splice)

/-- A context without the pipe differs from the one with it in its streams only. -/
theorem without_cwd : (ctx.without σ).cwd = ctx.cwd := rfl

theorem without_env : (ctx.without σ).env = ctx.env := rfl

theorem without_arguments : (ctx.without σ).arguments = ctx.arguments := rfl

theorem without_words : (ctx.without σ).words = ctx.words := rfl

end Context

namespace Utility

open TreeShell.Action

variable {σ : Splice} {ctx : Context}

/-! ## What all commands do -/

/-- A text goes to the output, be it the pipe or that of the line. -/
theorem alike_put (text : String) :
    Alike σ ctx.ends (put ctx text) (put (ctx.without σ) text) :=
  .write 1 text

/-- A complaint goes to the errors, which twin jobs share. -/
theorem alike_complain (line : String) :
    Alike σ ctx.ends (complain ctx line) (complain (ctx.without σ) line) :=
  .write 2 _

/-- Twin actions that the tree may refuse are refused alike, and in the same words. -/
theorem alike_orComplain {action action' : Action Unit} {words : PathError → String}
    (h : Alike σ ctx.ends action action') :
    Alike σ ctx.ends (orComplain ctx words action) (orComplain (ctx.without σ) words action') := by
  refine h.attempt.bind fun r => ?_
  cases r with
  | ok _ => exact .pure _
  | error e => exact (alike_complain _).bind fun _ => .pure _

/-- To complain and return something. -/
theorem alike_complain_return {α : Type} {line : String} {a : α} :
    Alike σ ctx.ends (do complain ctx line; return a)
      (do complain (ctx.without σ) line; return a) :=
  (alike_complain _).bind fun _ => .pure _

/-- To write and return something. -/
theorem alike_put_return {α : Type} {text : String} {a : α} :
    Alike σ ctx.ends (do put ctx text; return a) (do put (ctx.without σ) text; return a) :=
  (alike_put _).bind fun _ => .pure _

/-- A line and a value are alike on both sides. -/
theorem alike_putLine_return {α : Type} {line : String} {a : α} :
    Alike σ ctx.ends (do putLine ctx line; return a)
      (do putLine (ctx.without σ) line; return a) :=
  alike_put_return

/-! ## Commands on nodes -/

/-- A listing asks the tree, which twin jobs share. -/
theorem alike_listDirectory (owner path : String) :
    Alike σ ctx.ends (listDirectory ctx owner path)
      (listDirectory (ctx.without σ) owner path) := by
  refine (Alike.ask _).bind fun names => ?_
  refine (Alike.forIn fun name _ => ?_).bind fun _ => .pure _
  refine (Alike.ask _).bind fun info => (Alike.lift _).bind fun line => ?_
  exact alike_putLine_return

/-- An operand is listed or reported alike. -/
theorem alike_listOperand (owner : String) (several : Bool) (index : Nat) (path : String) :
    Alike σ ctx.ends (listOperand ctx owner several index path)
      (listOperand (ctx.without σ) owner several index path) := by
  refine (Alike.ask _).attempt.bind fun r => ?_
  cases r with
  | error e => exact alike_complain_return
  | ok info =>
    have hlist : Alike σ ctx.ends (do listDirectory ctx owner path; return true)
        (do listDirectory (ctx.without σ) owner path; return true) :=
      (alike_listDirectory owner path).bind fun _ => .pure _
    have hnamed : Alike σ ctx.ends
        (do put ctx (path ++ ":\n"); listDirectory ctx owner path; return true)
        (do put (ctx.without σ) (path ++ ":\n"); listDirectory (ctx.without σ) owner path
            return true) :=
      (alike_put _).bind fun _ => hlist
    refine .ite (fun _ => .ite (fun _ => .ite (fun _ => ?_) fun _ => hnamed) fun _ => hlist)
      fun _ => ?_
    · exact (alike_put _).bind fun _ => hnamed
    · exact (Alike.lift _).bind fun line => alike_putLine_return

theorem alike_ls : Alike σ ctx.ends (ls ctx) (ls (ctx.without σ)) :=
  .each fun _ _ => alike_listOperand _ _ _ _

/-- Commands with a destination are alike if what they do for each source is. -/
theorem alike_withDestination {name : String}
    {action action' : Bool → String → String → Action Unit}
    (h : ∀ b source destination,
      Alike σ ctx.ends (action b source destination) (action' b source destination)) :
    Alike σ ctx.ends (withDestination ctx name action)
      (withDestination (ctx.without σ) name action') := by
  refine .ite (fun _ => alike_put_return) fun _ => ?_
  dsimp only
  rw [Context.without_arguments]
  cases sourcesAndDestination? ctx.arguments with
  | none => exact alike_complain_return
  | some operands =>
    refine Alike.session.bind fun s => .ite (fun _ => alike_complain_return) fun _ => ?_
    exact .each fun source _ => alike_orComplain (h _ source _)

theorem alike_cp : Alike σ ctx.ends (cp ctx) (cp (ctx.without σ)) :=
  alike_withDestination fun _ _ _ => (Alike.ask _).bind fun _ => .edit _ _

theorem alike_mv : Alike σ ctx.ends (mv ctx) (mv (ctx.without σ)) :=
  alike_withDestination fun _ _ _ => .edit _ _

/-- A deletion that is refused is passed over, or reported alike. -/
theorem alike_removeOperand (path : String) :
    Alike σ ctx.ends (removeOperand ctx path) (removeOperand (ctx.without σ) path) := by
  refine .ite (fun _ => alike_complain_return) fun _ => ?_
  refine (Alike.edit _ _).attempt.bind fun r => ?_
  cases r with
  | ok _ => exact .pure _
  | error e => exact .ite (fun _ => .pure _) fun _ => alike_complain_return

theorem alike_rm : Alike σ ctx.ends (rm ctx) (rm (ctx.without σ)) :=
  .ite (fun _ => alike_put_return) fun _ => .each fun path _ => alike_removeOperand path

/-- Commands that need operands are alike if what they do for each is. -/
theorem alike_eachOperand {missing : String} {words : String → String}
    {action action' : String → Action Unit}
    (h : ∀ path, Alike σ ctx.ends (action path) (action' path)) :
    Alike σ ctx.ends (eachOperand ctx missing words action)
      (eachOperand (ctx.without σ) missing words action') :=
  .ite (fun _ => alike_complain_return) fun _ =>
    .each fun path _ => alike_orComplain (h path)

theorem alike_mkdir : Alike σ ctx.ends (mkdir ctx) (mkdir (ctx.without σ)) :=
  alike_eachOperand fun _ => .edit _ _

theorem alike_touch : Alike σ ctx.ends (touch ctx) (touch (ctx.without σ)) :=
  alike_eachOperand fun _ => .edit _ _

/-- What is told about a node is told alike. -/
theorem alike_statOperand (path : String) :
    Alike σ ctx.ends (statOperand ctx path) (statOperand (ctx.without σ) path) := by
  refine (Alike.ask _).attempt.bind fun r => ?_
  cases r with
  | error e => exact alike_complain_return
  | ok info => exact (Alike.lift _).bind fun text => alike_put_return

theorem alike_stat : Alike σ ctx.ends (stat ctx) (stat (ctx.without σ)) :=
  .ite (fun _ => alike_complain_return) fun _ => .each fun path _ => alike_statOperand path

/-! ## Commands on texts -/

/-- The pipe is read as long as nothing was written to it by the command itself. -/
theorem copyInput_atFirst : AlikeAtFirst σ ctx.ends (copyInput ctx) (copyInput (ctx.without σ)) :=
  AlikeAtFirst.read.bind fun _ => alike_put _

/-- A file, or the input if that is not the pipe. -/
theorem alike_catOperand {path : String} (h : path = "-" → ctx.ends.input ≠ σ.pipe) :
    Alike σ ctx.ends (catOperand ctx path) (catOperand (ctx.without σ) path) := by
  refine .ite (fun hdash => ?_) fun _ => ?_
  · exact ((Alike.read (h hdash)).bind fun _ => alike_put _).bind fun _ => .pure _
  · exact alike_orComplain ((Alike.ask _).bind fun _ => alike_put _)

/-- For the first operand the input may be the pipe. -/
theorem catOperand_atFirst (path : String) :
    AlikeAtFirst σ ctx.ends (catOperand ctx path) (catOperand (ctx.without σ) path) := by
  by_cases hdash : path = "-"
  · unfold catOperand
    rw [if_pos hdash, if_pos hdash]
    exact copyInput_atFirst.bind fun _ => .pure _
  · exact (alike_catOperand fun h => absurd h hdash).atFirst

/-- The input can be the pipe as long as no dash comes after another operand. -/
theorem cat_atFirst (h : "-" ∈ ctx.arguments.tail → ctx.ends.input ≠ σ.pipe) :
    AlikeAtFirst σ ctx.ends (cat ctx) (cat (ctx.without σ)) := by
  unfold cat
  rw [Context.without_arguments]
  cases harguments : ctx.arguments with
  | nil => exact copyInput_atFirst.bind fun _ => .pure _
  | cons path rest =>
    rw [harguments] at h
    have hrest : Alike σ ctx.ends (each (catOperand ctx) rest)
        (each (catOperand (ctx.without σ)) rest) :=
      .each fun operand hoperand => alike_catOperand fun hdash => h (hdash ▸ hoperand)
    exact (catOperand_atFirst path).bind fun _ => hrest.bind fun _ => .pure _

theorem alike_echo : Alike σ ctx.ends (echo ctx) (echo (ctx.without σ)) := alike_put_return

/-- What several files hold is the same for twin jobs. -/
theorem alike_contents (name : String) (paths : List String) :
    Alike σ ctx.ends (contents ctx name paths) (contents (ctx.without σ) name paths) := by
  induction paths with
  | nil => exact .pure _
  | cons path rest ih =>
    refine Alike.session.bind fun s => ?_
    rw [Context.without_cwd]
    cases s.volume.tree.content path ctx.cwd with
    | error e => exact alike_complain_return
    | ok content => exact ih.bind fun _ => .pure _

/-- The input is read before anything is written. -/
theorem inputs_atFirst (name : String) (paths : List String) :
    AlikeAtFirst σ ctx.ends (inputs ctx name paths) (inputs (ctx.without σ) name paths) := by
  unfold inputs
  split
  · exact AlikeAtFirst.read.bind fun _ => .pure _
  · exact (alike_contents name paths).atFirst

/-- To count is to read first and to write then. -/
theorem wc_atFirst : AlikeAtFirst σ ctx.ends (wc ctx) (wc (ctx.without σ)) := by
  refine (inputs_atFirst _ _).bind fun r => ?_
  cases r with
  | none => exact .pure _
  | some contents =>
    refine (Alike.forIn fun entry _ => ?_).bind fun _ => .pure _
    exact (Alike.need _).bind fun text => alike_putLine_return

/-- To choose lines is to read first and to write then. -/
theorem grep_atFirst : AlikeAtFirst σ ctx.ends (grep ctx) (grep (ctx.without σ)) := by
  unfold grep
  rw [Context.without_arguments]
  split
  · exact alike_complain_return.atFirst
  · refine (inputs_atFirst _ _).bind fun r => ?_
    cases r with
    | none => exact .pure _
    | some contents =>
      refine (Alike.forIn fun entry _ => ?_).bind fun _ => .pure _
      refine (Alike.need _).bind fun text => ?_
      exact (Alike.forIn fun line _ => alike_putLine_return).bind fun _ => .pure _

/-! ## Commands on the session -/

/-- The working directory is changed in the session, which twin jobs share. -/
theorem alike_cd : Alike σ ctx.ends (cd ctx) (cd (ctx.without σ)) := by
  refine Alike.session.bind fun s => ?_
  rw [Context.without_arguments]
  cases s.changeDirectory (ctx.arguments.headD "~") with
  | mk outcome s' =>
    cases outcome with
    | ok _ => exact (Alike.change _).bind fun _ => .pure _
    | error e =>
      cases e with
      | path e => exact alike_complain_return
      | outside given home => exact alike_complain_return

theorem alike_pwd : Alike σ ctx.ends (pwd ctx) (pwd (ctx.without σ)) := alike_putLine_return

theorem alike_whoami : Alike σ ctx.ends (whoami ctx) (whoami (ctx.without σ)) :=
  alike_putLine_return

/-- Unit files are looked up in the tree that twin jobs share, and noted in one journal. -/
theorem alike_help : Alike σ ctx.ends (help ctx) (help (ctx.without σ)) := by
  refine (alike_put _).bind fun _ => Alike.session.bind fun s => ?_
  refine (Alike.forIn fun name _ => Alike.session.bind fun s => ?_).bind fun _ => alike_put_return
  rw [Context.without_env]
  cases s.volume.loadCommand s.registry name (ctx.env.getD "PATH" "") with
  | mk outcome volume =>
    refine (Alike.change _).bind fun _ => ?_
    cases outcome with
    | ok c => exact alike_putLine_return
    | error e =>
      cases e with
      | content e => exact (Alike.throw _).bind fun _ => .pure _
      | _ => exact .pure _

theorem alike_clear : Alike σ ctx.ends (clear ctx) (clear (ctx.without σ)) :=
  (Alike.change _).bind fun _ => .pure _

theorem alike_env : Alike σ ctx.ends (env ctx) (env (ctx.without σ)) :=
  (Alike.forIn fun _ _ => alike_putLine_return).bind fun _ => .pure _

/-- Words are taken one after another until one cannot be, with or without the pipe. -/
theorem alike_exportAll (words : List String) :
    Alike σ ctx.ends (exportAll ctx words) (exportAll (ctx.without σ) words) := by
  induction words with
  | nil => exact .pure _
  | cons word rest ih =>
    rw [exportAll, exportAll]
    split
    · exact alike_complain_return
    · refine Alike.session.bind fun s => ?_
      split
      · exact (Alike.change _).bind fun _ => ih
      · exact alike_complain_return

theorem alike_exportOrList : Alike σ ctx.ends (exportOrList ctx) (exportOrList (ctx.without σ)) :=
  .ite (fun _ => alike_env) fun _ => alike_exportAll _

/-- Aliases are listed to the output, or one is defined in the session. -/
theorem alike_aliasOrList : Alike σ ctx.ends (aliasOrList ctx) (aliasOrList (ctx.without σ)) := by
  refine .ite (fun _ => Alike.session.bind fun s => ?_) fun _ => ?_
  · exact (Alike.forIn fun _ _ => alike_putLine_return).bind fun _ => .pure _
  · rw [Context.without_words]
    split
    · refine .ite (fun _ => ?_) fun _ => alike_complain_return
      exact (Alike.change _).bind fun _ => .pure _
    · exact alike_complain_return

/-- A name without an alias is reported alike. -/
theorem alike_unalias : Alike σ ctx.ends (unalias ctx) (unalias (ctx.without σ)) := by
  refine .ite (fun _ => alike_complain_return) fun _ => .each fun name _ => ?_
  refine Alike.session.bind fun s => (Alike.change _).bind fun _ => ?_
  refine .ite (fun _ => .pure _) fun _ => alike_complain_return

theorem alike_history : Alike σ ctx.ends (history ctx) (history (ctx.without σ)) :=
  Alike.session.bind fun _ => (Alike.forIn fun _ _ => alike_putLine_return).bind fun _ => .pure _

/-- The journal is one, and so is what is printed of it. -/
theorem alike_dmesg : Alike σ ctx.ends (dmesg ctx) (dmesg (ctx.without σ)) := by
  have hlevel : leastLevel (ctx.without σ) = leastLevel ctx := rfl
  unfold dmesg
  rw [hlevel]
  split
  · exact alike_complain_return
  · refine Alike.session.bind fun s => ?_
    exact (Alike.forIn fun _ _ => alike_putLine_return).bind fun _ => .pure _

end Utility

/-- A program that every session has does the same with the pipe and without it, unless it is one
that prints its operands and may read the pipe after it has written to it. -/
theorem Program.run_atFirst {σ : Splice} {p : Program} {ctx : Context}
    (h : p.isDiagnostic = false)
    (hreads : p = .cat → "-" ∈ ctx.arguments.tail → ctx.ends.input ≠ σ.pipe) :
    Action.AlikeAtFirst σ ctx.ends (p.run ctx) (p.run (ctx.without σ)) := by
  cases p with
  | ls => exact Utility.alike_ls.atFirst
  | cat => exact Utility.cat_atFirst (hreads rfl)
  | cp => exact Utility.alike_cp.atFirst
  | mv => exact Utility.alike_mv.atFirst
  | rm => exact Utility.alike_rm.atFirst
  | mkdir => exact Utility.alike_mkdir.atFirst
  | touch => exact Utility.alike_touch.atFirst
  | stat => exact Utility.alike_stat.atFirst
  | cd => exact Utility.alike_cd.atFirst
  | pwd => exact Utility.alike_pwd.atFirst
  | echo => exact Utility.alike_echo.atFirst
  | whoami => exact Utility.alike_whoami.atFirst
  | help => exact Utility.alike_help.atFirst
  | clear => exact Utility.alike_clear.atFirst
  | wc => exact Utility.wc_atFirst
  | grep => exact Utility.grep_atFirst
  | env => exact Utility.alike_env.atFirst
  | «export» => exact Utility.alike_exportOrList.atFirst
  | «alias» => exact Utility.alike_aliasOrList.atFirst
  | unalias => exact Utility.alike_unalias.atFirst
  | history => exact Utility.alike_history.atFirst
  | dmesg => exact Utility.alike_dmesg.atFirst
  | diagnostic d => cases h

end TreeShell
