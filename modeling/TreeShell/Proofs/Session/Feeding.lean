import TreeShell.Proofs.Session.Operands
import TreeShell.Proofs.Session.Printing
import TreeShell.Proofs.Session.Splices

/-!
# Texts from stage to stage

Most stages make a text of a text: they read their input, print to their output, exit with a code,
and leave all else as it is. What such stages make of a text one after another is told without their
streams: each is fed what the one before it printed, until one does not succeed.
-/

namespace TreeShell

open TreeShell.Action

/-! ## Pools that are printed to -/

namespace Pool

variable {p q r : Pool} {input output : Nat} {text text' : String}

/-- A stage can start: its input keeps texts, and its output comes to an end where texts stay, which
is not its input. -/
structure Ready (p : Pool) (input output : Nat) : Prop where
  keeps : p.Keeps input
  takes : p.Takes (p.endOf output)
  apart : p.endOf output ≠ .keeper input

/-- A text has been printed to an output, and nothing was read but the input. -/
structure Prints (p : Pool) (input output : Nat) (text : String) (q : Pool) : Prop where
  grows : p.GrowsTo q
  heard : ∀ e, p.Takes e → e ≠ .keeper input →
    q.heard e = p.heard e ++ if p.endOf output = e then text else ""

/-- A pool that is ready stays so while it grows. -/
theorem Ready.grow (h : p.Ready input output) (hgrows : p.GrowsTo q) : q.Ready input output where
  keeps := hgrows.keeps h.keeps
  takes := hgrows.takes_endOf h.takes
  apart := by
    rw [hgrows.endOf_eq h.takes.ne_nowhere]
    exact h.apart

/-- What is printed in two steps is printed one after the other. -/
theorem Prints.trans (h : p.Prints input output text q) (h' : q.Prints input output text' r)
    (htakes : p.Takes (p.endOf output)) : p.Prints input output (text ++ text') r where
  grows := h.grows.trans h'.grows
  heard e he hne := by
    rw [h'.heard e (h.grows.takes he) hne, h.heard e he hne, h.grows.endOf_eq htakes.ne_nowhere,
      String.append_assoc]
    split
    · rfl
    · rw [String.append_empty]

/-- Only one stream has another text, and no stream leads elsewhere. -/
theorem prints_nothing (hgrows : p.GrowsTo q)
    (h : ∀ e, p.Takes e → e ≠ .keeper input → q.heard e = p.heard e) :
    p.Prints input output "" q where
  grows := hgrows
  heard e he hne := by
    rw [h e he hne, ite_self, String.append_empty]

/-- A write to the output prints the text. -/
theorem prints_write (p : Pool) (input : Nat) (htakes : p.Takes (p.endOf output)) (text : String) :
    p.Prints input output text (p.write output text) where
  grows := p.growsTo_write output text
  heard e _ _ := heard_write_eq htakes e

/-- Reading the input prints nothing. -/
theorem prints_read (p : Pool) (input output : Nat) :
    p.Prints input output "" (p.read input).2 :=
  prints_nothing (p.growsTo_read input) fun e _ hne => by rw [heard_read_eq, if_neg hne]

/-- A stream that is opened is none where a text has come to. -/
theorem heard_append_of_takes {e : End} (h : p.Takes e) (s : Stream) :
    heard { p with streams := p.streams ++ [s] } e = p.heard e := by
  rw [heard_append_eq, if_neg]
  rintro rfl
  exact Nat.lt_irrefl _ h

/-- A stream that is put in with a text keeps what it gets. -/
theorem keeps_append (p : Pool) (text : String) : (p.addKeeping text).1.Keeps p.next :=
  ⟨_, p.getElem?_next ⟨.kept, text⟩, rfl⟩

/-- A stream that is put in with a text has kept it. -/
theorem heard_addKeeping (p : Pool) (text : String) :
    (p.addKeeping text).1.heard (.keeper p.next) = text := by
  have hheard := heard_append_eq p ⟨.kept, text⟩ (.keeper p.next)
  rw [if_pos rfl] at hheard
  exact hheard

/-- A new stream is an input that no old output comes to. -/
theorem ready_addKeeping (htakes : p.Takes (p.endOf output)) (text : String) :
    (p.addKeeping text).1.Ready p.next output where
  keeps := p.keeps_append text
  takes := (p.growsTo_addKeeping text).takes_endOf htakes
  apart := by
    rw [(p.growsTo_addKeeping text).endOf_eq htakes.ne_nowhere]
    intro he
    rw [he] at htakes
    exact Nat.lt_irrefl _ htakes

end Pool

/-! ## Actions that print -/

namespace Action

variable {α β : Type} {ctx : Context} {action : Action α} {next : α → Action β}
  {text text' : String} {a : α} {b : β} {j : Job}

/-- An action returns, and does nothing but print a text and read the input. -/
def Prints (ctx : Context) (action : Action α) (text : String) (a : α) (j : Job) : Prop :=
  ∃ pool, result action j = (.ok a, ⟨j.session, pool⟩) ∧
    j.pool.Prints ctx.ends.input ctx.ends.output text pool

/-- An action that leaves the job as it is prints nothing. -/
theorem Prints.of_result (h : result action j = (.ok a, j)) : Prints ctx action "" a j :=
  ⟨j.pool, h, Pool.prints_nothing (.refl _) fun _ _ _ => rfl⟩

/-- Actions one after another print what each of them prints. -/
theorem Prints.bind (h : Prints ctx action text a j)
    (htakes : j.pool.Takes (j.pool.endOf ctx.ends.output))
    (hnext : ∀ pool, j.pool.GrowsTo pool → Prints ctx (next a) text' b ⟨j.session, pool⟩) :
    Prints ctx (action >>= next) (text ++ text') b j := by
  obtain ⟨pool, hresult, hprints⟩ := h
  obtain ⟨pool', hresult', hprints'⟩ := hnext pool hprints.grows
  refine ⟨pool', ?_, hprints.trans hprints' htakes⟩
  rw [result_bind, hresult]
  exact hresult'

/-- An action that prints nothing before another. -/
theorem Prints.bind_silent (h : Prints ctx action "" a j)
    (htakes : j.pool.Takes (j.pool.endOf ctx.ends.output))
    (hnext : ∀ pool, j.pool.GrowsTo pool → Prints ctx (next a) text b ⟨j.session, pool⟩) :
    Prints ctx (action >>= next) text b j := by
  have hbind := h.bind htakes hnext
  rwa [String.empty_append] at hbind

/-- An action that prints nothing after another. -/
theorem Prints.bind_pure (h : Prints ctx action text a j)
    (htakes : j.pool.Takes (j.pool.endOf ctx.ends.output))
    (hnext : ∀ pool, result (next a) ⟨j.session, pool⟩ = (.ok b, ⟨j.session, pool⟩)) :
    Prints ctx (action >>= next) text b j := by
  have hbind := h.bind htakes fun pool _ => Prints.of_result (hnext pool)
  rwa [String.append_empty] at hbind

/-- To put a text is to print it. -/
theorem prints_put (htakes : j.pool.Takes (j.pool.endOf ctx.ends.output)) (text : String) :
    Prints ctx (put ctx text) text () j :=
  ⟨j.pool.write ctx.ends.output text, result_put htakes text, j.pool.prints_write _ htakes text⟩

/-- To put a line is to print it with its end. -/
theorem prints_putLine (htakes : j.pool.Takes (j.pool.endOf ctx.ends.output)) (line : String) :
    Prints ctx (putLine ctx line) (line ++ "\n") () j :=
  prints_put htakes _

/-- What is read from the input is what it has kept. -/
theorem prints_read (ctx : Context) (j : Job) :
    Prints ctx (read ctx.ends.input) "" (j.pool.heard (.keeper ctx.ends.input)) j := by
  refine ⟨(j.pool.read ctx.ends.input).2, ?_, j.pool.prints_read _ _⟩
  rw [read, result_allow, ← Pool.read_eq_heard]
  rfl

/-- To print a text for each of some things is to print these texts one after another. -/
theorem prints_forIn {γ : Type} {f : γ → String} {body : γ → PUnit → Action (ForInStep PUnit)}
    {l : List γ} (htakes : j.pool.Takes (j.pool.endOf ctx.ends.output))
    (hbody : ∀ c ∈ l, ∀ pool, j.pool.GrowsTo pool →
      Prints ctx (body c PUnit.unit) (f c) (.yield PUnit.unit) ⟨j.session, pool⟩) :
    Prints ctx (forIn l PUnit.unit body) (String.join (l.map f)) PUnit.unit j := by
  induction l generalizing j with
  | nil => exact .of_result rfl
  | cons c l ih =>
    rw [List.forIn_cons, List.map_cons, String.join_cons]
    refine (hbody c List.mem_cons_self j.pool (.refl _)).bind htakes fun pool hgrows => ?_
    exact ih (hgrows.takes_endOf htakes) fun c' hc' pool' hgrows' =>
      hbody c' (List.mem_cons_of_mem _ hc') pool' (hgrows.trans hgrows')

end Action

/-! ## Stages that make a text of a text -/

namespace Session

variable {s : Session} {command name input between output : String} {words : List String}
  {code : Int} {c : Command}

/-- An end where texts stay is none of the streams that are not there yet. -/
theorem takes_ne_next {pool : Pool} {e : Pool.End} (he : pool.Takes e) {n : Nat}
    (hn : pool.next ≤ n) : e ≠ .keeper n := by
  rintro rfl
  exact Nat.lt_irrefl _ (Nat.lt_of_lt_of_le he hn)

/-- What a command of a stage is given in a session. -/
def contextOf (s : Session) (words : List String) (ends : Ends) : Context where
  cwd := s.cwd
  env := s.env.vars
  arguments := (Options.sort words).1
  options := (Options.sort words).2
  words := words
  ends := ends

/-- A stage makes a text of a text: fed the one it prints the other, exits with a code, and leaves
all else as it is. -/
def Turns (s : Session) (command input output : String) (code : Int) : Prop :=
  ∀ (history : List String) (defaults : Ends) (pool : Pool),
    pool.Ready defaults.input defaults.output →
    pool.heard (.keeper defaults.input) = input →
    ∃ pool', Job.runStage (s.expandAlias command) defaults ⟨{ s with history }, pool⟩ =
        (.ok (code, false), ⟨{ s with history }, pool'⟩) ∧
      pool.Prints defaults.input defaults.output output pool'

/-- A command with some words makes a text of a text: fed the one its program prints the other, and
exits with a code. -/
def Makes (s : Session) (name : String) (words : List String) (input output : String) (code : Int) :
    Prop :=
  ∃ c, s.registry.load s.volume.tree name s.bin = .ok c ∧
    ∀ (j : Job) (ends : Ends), j.session.volume = s.volume → j.pool.Ready ends.input ends.output →
      j.pool.heard (.keeper ends.input) = input →
      Prints (s.contextOf words ends) (c.program.run (s.contextOf words ends)) output code j

/-- A command makes of its input what its program prints. -/
theorem Runs.makes {p : Program} (h : s.Runs name p)
    (hprints : ∀ (j : Job) (ends : Ends), j.session.volume = s.volume →
      j.pool.Ready ends.input ends.output → j.pool.heard (.keeper ends.input) = input →
      Prints (s.contextOf words ends) (p.run (s.contextOf words ends)) output code j) :
    s.Makes name words input output code := by
  obtain ⟨c, hload, rfl⟩ := h.loads
  exact ⟨c, hload, hprints⟩

/-- A stage without redirections makes of a text what its command does. -/
theorem Makes.turns (h : s.Makes name words input output code)
    (hparts : Parts.ofStage (s.expandAlias command) = .ok ⟨name :: words, []⟩) :
    s.Turns command input output code := by
  obtain ⟨c, hload, hprints⟩ := h
  intro history defaults pool hready hinput
  obtain ⟨pool', hresult, hprinted⟩ := hprints ⟨{ s with history }, pool⟩ defaults rfl hready hinput
  refine ⟨pool', ?_, hprinted⟩
  have hresolve : Stage.resolve (s.expandAlias command) defaults s.cwd ⟨s.volume, pool⟩ =
      (.ok ⟨some name, words, defaults, []⟩, ⟨s.volume, pool⟩) := by
    rw [Stage.resolve, hparts]
    rfl
  exact Job.runStage_of_result (j := ⟨{ s with history }, pool⟩) hresolve rfl hload hresult

/-- A stage that is fed a file makes of whatever text what its command makes of the file's. -/
theorem Makes.turns_read {path : String} {content : Content}
    (h : s.Makes name words content.plain output code)
    (hparts : Parts.ofStage (s.expandAlias command) =
      .ok ⟨name :: words, [⟨0, .read, .file path⟩]⟩)
    (hcontent : s.volume.tree.content path s.cwd = .ok content) (input : String) :
    s.Turns command input output code := by
  obtain ⟨c, hload, hprints⟩ := h
  intro history defaults pool hready _
  have hgrows := pool.growsTo_addKeeping content.plain
  obtain ⟨pool', hresult, hprinted⟩ := hprints
    ⟨{ s with history }, (pool.addKeeping content.plain).1⟩
    ⟨pool.next, defaults.output, defaults.errors⟩ rfl
    (Pool.ready_addKeeping hready.takes content.plain) (pool.heard_addKeeping content.plain)
  refine ⟨pool', ?_, hgrows.trans hprinted.grows, fun e he _ => ?_⟩
  · have hresolve : Stage.resolve (s.expandAlias command) defaults s.cwd ⟨s.volume, pool⟩ =
        (.ok ⟨some name, words, ⟨pool.next, defaults.output, defaults.errors⟩, [0]⟩,
          ⟨s.volume, (pool.addKeeping content.plain).1⟩) := by
      have hopen : Redirection.openFile ⟨0, .read, .file path⟩ path s.cwd ⟨s.volume, pool⟩ =
          (.ok pool.next, ⟨s.volume, (pool.addKeeping content.plain).1⟩) := by
        unfold Redirection.openFile
        dsimp only
        rw [hcontent]
        rfl
      have hconnect : Redirection.connect ⟨0, .read, .file path⟩ (Table.ofEnds defaults) s.cwd
          ⟨s.volume, pool⟩ = (.ok pool.next, ⟨s.volume, (pool.addKeeping content.plain).1⟩) := hopen
      rw [Stage.resolve, hparts]
      dsimp only
      rw [Redirection.connectAll, hconnect]
      rfl
    exact Job.runStage_of_result (j := ⟨{ s with history }, pool⟩) hresolve rfl hload hresult
  · have hheard := hprinted.heard e (hgrows.takes he) (takes_ne_next he (Nat.le_refl _))
    change pool'.heard e = _ ++ if (pool.addKeeping content.plain).1.endOf defaults.output = e then
      output else "" at hheard
    rw [hheard, hgrows.endOf_eq hready.takes.ne_nowhere]
    exact congrArg (· ++ _) (Pool.heard_append_of_takes he _)

/-- What stages make of a text, each fed what the one before it printed. The first that does not
succeed is the last that is run. -/
inductive Pipes (s : Session) : List String → (input output : String) → Int → Prop
  | last {command input output : String} {code : Int} : s.Turns command input output code →
      Pipes s [command] input output code
  | next {command second input between output : String} {rest : List String} {code : Int} :
      s.Turns command input between success → Pipes s (second :: rest) between output code →
      Pipes s (command :: second :: rest) input output code
  | halt {command second input between : String} {rest : List String} {code : Int} :
      s.Turns command input between code → code ≠ success →
      Pipes s (command :: second :: rest) input "" code

/-- Stages that are fed what others made, which succeeded, are run behind them. -/
theorem Pipes.append {front rest : List String} (h : s.Pipes front input between success)
    (hrest : s.Pipes rest between output code) : s.Pipes (front ++ rest) input output code := by
  obtain ⟨first, later, rfl⟩ : ∃ first later, rest = first :: later := by
    cases hrest with
    | last => exact ⟨_, _, rfl⟩
    | next => exact ⟨_, _, rfl⟩
    | halt => exact ⟨_, _, rfl⟩
  generalize hcode : success = last at h
  induction h with
  | last hturns =>
    subst hcode
    exact .next hturns hrest
  | next hturns _ ih => exact .next hturns (ih hrest hcode)
  | halt _ hne => exact absurd hcode.symm hne

/-- What some stages of a line come to, fed a text: a code, and what is heard where the line
prints. -/
def Gives (s : Session) (commands : List String) (input output : String) (code : Int) : Prop :=
  ∀ (history : List String) (pool : Pool) (out errors index : Nat), pool.Takes (pool.endOf out) →
    ∃ j, Job.runStages out errors index input commands ⟨{ s with history }, pool⟩ = (.ok code, j) ∧
      pool.GrowsTo j.pool ∧ ∀ e, pool.Takes e →
        j.pool.heard e = pool.heard e ++ if pool.endOf out = e then output else ""

/-- A stage that others follow leaves what it made in its pipe, and nothing elsewhere. -/
theorem Turns.visit (h : s.Turns command input between code) (history : List String) (pool : Pool)
    (errors : Nat) :
    ∃ pool', (Job.visit errors input command ⟨{ s with history }, pool⟩).run =
        (.ok (code, false), ⟨{ s with history }, pool'⟩) ∧ pool.GrowsTo pool' ∧
      pool'.heard (.keeper (pool.next + 1)) = between ∧
        ∀ e, pool.Takes e → pool'.heard e = pool.heard e := by
  have hinput := pool.growsTo_addKeeping input
  have hpipe := (pool.addKeeping input).1.growsTo_addKeeping ""
  have hnext : (pool.addKeeping input).1.next = pool.next + 1 := pool.next_addKeeping input
  let p := ((pool.addKeeping input).1.addKeeping "").1
  have hkeeps : p.Keeps (pool.next + 1) := hnext ▸ (pool.addKeeping input).1.keeps_append ""
  have hempty : p.heard (.keeper (pool.next + 1)) = "" :=
    hnext ▸ (pool.addKeeping input).1.heard_addKeeping ""
  have hready : p.Ready pool.next (pool.next + 1) :=
    { keeps := hpipe.keeps (pool.keeps_append input)
      takes := hkeeps.takes_endOf
      apart := by
        rw [hkeeps.endOf_eq]
        exact fun he => Nat.succ_ne_self _ (Pool.End.keeper.inj he) }
  have hheard : p.heard (.keeper pool.next) = input :=
    (Pool.heard_append_of_takes (pool.keeps_append input).takes _).trans
      (pool.heard_addKeeping input)
  obtain ⟨pool', hrun, hprints⟩ := h history ⟨pool.next, pool.next + 1, errors⟩ p hready hheard
  refine ⟨pool', ?_, (hinput.trans hpipe).trans hprints.grows, ?_, fun e he => ?_⟩
  · rw [← hrun]
    exact congrArg (fun n => Job.runStage (s.expandAlias command) ⟨pool.next, n, errors⟩ _) hnext
  · rw [hprints.heard _ hkeeps.takes fun he => Nat.succ_ne_self _ (Pool.End.keeper.inj he), hempty,
      hkeeps.endOf_eq, if_pos rfl, String.empty_append]
  · rw [hprints.heard e (hpipe.takes (hinput.takes he)) (takes_ne_next he (Nat.le_refl _)),
      hkeeps.endOf_eq, if_neg (takes_ne_next he (Nat.le_succ _)).symm, String.append_empty]
    exact (Pool.heard_append_of_takes (hinput.takes he) _).trans (Pool.heard_append_of_takes he _)

/-- Stages that make a text of a text do so in a line, whatever has been printed there before. -/
theorem gives_of_pipes {commands : List String} (h : s.Pipes commands input output code) :
    s.Gives commands input output code := by
  induction h with
  | @last command input output code hturns =>
    intro history pool out errors index htakes
    have hgrows := pool.growsTo_addKeeping input
    obtain ⟨pool', hrun, hprints⟩ := hturns history ⟨pool.next, out, errors⟩
      (pool.addKeeping input).1 (Pool.ready_addKeeping htakes input) (pool.heard_addKeeping input)
    refine ⟨⟨{ s with history }, pool'⟩, ?_, hgrows.trans hprints.grows, fun e he => ?_⟩
    · rw [Job.runStages_last]
      have hvisit : (Job.lastVisit out errors input command ⟨{ s with history }, pool⟩).run =
          (.ok (code, false), ⟨{ s with history }, pool'⟩) := hrun
      rw [hvisit]
    · rw [hprints.heard e (hgrows.takes he) (takes_ne_next he (Nat.le_refl _)),
        hgrows.endOf_eq htakes.ne_nowhere]
      exact congrArg (· ++ _) (Pool.heard_append_of_takes he _)
  | @next command second input between output rest code hturns _ ih =>
    intro history pool out errors index htakes
    obtain ⟨pool', hrun, hgrows, hpipe, hold⟩ := hturns.visit history pool errors
    have hread := hgrows.trans (pool'.growsTo_read (pool.next + 1))
    obtain ⟨j, hlater, hlast, hheard⟩ := ih history (pool'.read (pool.next + 1)).2 out errors
      (index + 1) (hread.takes_endOf htakes)
    refine ⟨j, ?_, hread.trans hlast, fun e he => ?_⟩
    · rw [Job.runStages_next, hrun]
      dsimp only
      rw [if_neg (not_not.mpr rfl), ← hlater, ← hpipe, ← Pool.read_eq_heard]
      exact congrArg (fun n => Job.runStages out errors (index + 1) (pool'.read n).1
        (second :: rest) ⟨{ s with history }, (pool'.read n).2⟩) (pool.next_addKeeping input)
    · rw [hheard e (hread.takes he), hread.endOf_eq htakes.ne_nowhere, Pool.heard_read_eq,
        if_neg (takes_ne_next he (Nat.le_succ _)), hold e he]
  | @halt command second input between rest code hturns hcode =>
    intro history pool out errors index _
    obtain ⟨pool', hrun, hgrows, -, hold⟩ := hturns.visit history pool errors
    have hlast : Job.runStages out errors index input (command :: second :: rest)
        ⟨{ s with history }, pool⟩ = (.ok code, Job.note ⟨{ s with history }, pool'⟩ .debug .shell
          ("pipeline halted at stage " ++ toString (index + 1) ++ " (" ++ Text.quoted command ++
            "), exit " ++ toString code)) := by
      rw [Job.runStages_next, hrun]
      dsimp only
      rw [if_pos hcode]
    refine ⟨_, hlast, hgrows, fun e he => ?_⟩
    rw [ite_self, String.append_empty]
    exact hold e he

/-- A line with such stages, its output and errors kept apart: nothing is reported. -/
theorem run_of_gives {line : String} {commands : List String}
    (hstages : Line.stages (Text.trimmed line) = commands)
    (h : s.Gives commands "" output code) :
    (s.run line).1 = ⟨.ok code, output, ""⟩ := by
  obtain ⟨history, hremember⟩ := s.exists_remember (Text.trimmed line)
  let pool : Pool := ⟨[⟨.kept, ""⟩, ⟨.kept, ""⟩, ⟨.stream 0, ""⟩, ⟨.stream 1, ""⟩], []⟩
  have hend : pool.endOf 2 = .keeper 0 := rfl
  have htakes : pool.Takes (.keeper 0) ∧ pool.Takes (.keeper 1) :=
    ⟨(by decide : 0 < 4), (by decide : 1 < 4)⟩
  obtain ⟨j, hrun, -, hheard⟩ := h history pool 2 3 0 (hend ▸ htakes.1)
  have hon : s.runOn line .apart = (.ok code, j) := by
    rw [runOn_eq, hstages, ← hrun, firstJob, hremember]
    rfl
  have hout : (j.pool.read 0).1 = output := by
    rw [Pool.read_eq_heard, hheard _ htakes.1, hend, if_pos rfl]
    exact String.empty_append
  have herr : (j.pool.read 1).1 = "" := by
    rw [Pool.read_eq_heard, hheard _ htakes.2, hend,
      if_neg fun he => Nat.zero_ne_one (Pool.End.keeper.inj he)]
    rfl
  rw [run_eq, hon]
  dsimp only
  rw [← hout, ← herr]
  rfl

/-- A session whose root holds some files, and unit files for the commands on texts. -/
def withFiles (files : List (String × Content)) : Session :=
  start (Volume.unsaved (.ofNode (.directory (.ofDirectory 0)
    (files.map (fun file => (file.1, .file (.ofFile 0) file.2)) ++
      ["cat", "grep", "wc"].map fun name => (name ++ Command.unitSuffix,
        .file (.ofFile 0) (.string (Command.unitHeader ++ name)))))) 0) .empty builtIns ∅

end Session

end TreeShell
