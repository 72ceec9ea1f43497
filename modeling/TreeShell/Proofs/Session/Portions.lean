import TreeShell.Proofs.Session.Copying
import TreeShell.Proofs.Session.Removing
import TreeShell.Proofs.Volume.Refusals

/-!
# Operands in portions

A command that goes through its operands leaves the same session and the same streams whether it is
given all of them at once or some first and the others then, and it exits with success just if each
of these runs does. For what is copied or moved into a directory the portions are single sources. So
an operand that fails keeps none of the others from its turn and changes nothing that they come to.
-/

namespace TreeShell

open TreeShell.Path

namespace Action

variable {α : Type} {j : Job} {P : Job → Prop} {f : α → Action Bool} {l : List α}

/-! ## Runs one after another -/

/-- The job after some runs, one after another. -/
def inTurn (parts : List (Action Int)) (j : Job) : Job :=
  parts.foldl (fun j part => (result part j).2) j

theorem inTurn_nil (j : Job) : inTurn [] j = j := rfl

theorem inTurn_cons (part : Action Int) (parts : List (Action Int)) (j : Job) :
    inTurn (part :: parts) j = inTurn parts (result part j).2 :=
  rfl

/-- Each of some runs exits with success in its turn. -/
def SucceedInTurn : List (Action Int) → Job → Prop
  | [], _ => True
  | part :: rest, j => (result part j).1 = .ok success ∧ SucceedInTurn rest (result part j).2

/-- A run comes to the same as some others, one after another: the same is left, and it exits with
success just if each of them does. -/
structure Parted (whole : Action Int) (parts : List (Action Int)) (j : Job) : Prop where
  job : (result whole j).2 = inTurn parts j
  success_iff : (result whole j).1 = .ok success ↔ SucceedInTurn parts j

/-- What comes to the same as parts does so by any other name. -/
theorem Parted.congr {whole whole' : Action Int} {parts : List (Action Int)}
    (h : Parted whole parts j) (heq : result whole' j = result whole j) : Parted whole' parts j :=
  ⟨by rw [heq, h.job], by rw [heq, h.success_iff]⟩

/-- A run with a first part and a rest, and others that come to the same as these. -/
theorem Parted.cons {whole first first' rest : Action Int} {parts : List (Action Int)}
    (h : Parted whole [first, rest] j) (hfirst : result first' j = result first j)
    (hrest : Parted rest parts (result first j).2) : Parted whole (first' :: parts) j where
  job := by simp only [h.job, inTurn_cons, inTurn_nil, hfirst, hrest.job]
  success_iff := by
    simp only [h.success_iff, SucceedInTurn, hfirst, hrest.success_iff, and_true]

/-! ## Things one after another -/

/-- Something is done for a thing, or said not to be, and what it keeps to is kept. -/
def Settles (P : Job → Prop) (action : Action Bool) : Prop :=
  ∀ j, P j → (∃ done, (result action j).1 = .ok done) ∧ P (result action j).2

/-- What is done for the first of some things comes before what is done for the others. -/
theorem result_each_cons {a : α} {done : Bool} {j' : Job} (ha : result (f a) j = (.ok done, j'))
    (l : List α) :
    (result (each f (a :: l)) j).2 = (result (each f l) j').2 ∧
      ((result (each f (a :: l)) j).1 = .ok success ↔
        done = true ∧ (result (each f l) j').1 = .ok success) := by
  rw [each, result_bind, ha]
  dsimp only
  rw [result_bind]
  generalize result (each f l) j' = rest
  obtain ⟨fault | code, k⟩ := rest
  · exact ⟨rfl, by simp⟩
  · cases done with
    | true => exact ⟨rfl, (and_iff_right rfl).symm⟩
    | false => exact ⟨rfl, by simp [result_pure, success, failure]⟩

/-- What is done for some things and for others behind them is done for the ones and then for the
others. -/
theorem parted_each_append (hsettles : ∀ a ∈ l, Settles P (f a)) (h : P j) (l' : List α) :
    Parted (each f (l ++ l')) [each f l, each f l'] j ∧ P (result (each f l) j).2 := by
  induction l generalizing j with
  | nil => exact ⟨⟨rfl, by simp [SucceedInTurn, each, result_pure]⟩, h⟩
  | cons a l ih =>
    obtain ⟨⟨done, hdone⟩, hnext⟩ := hsettles a List.mem_cons_self j h
    have ha : result (f a) j = (.ok done, (result (f a) j).2) := Prod.ext hdone rfl
    obtain ⟨hjob, hcode⟩ := result_each_cons ha l
    obtain ⟨hjob', hcode'⟩ := result_each_cons ha (l ++ l')
    obtain ⟨hrest, hkept⟩ := ih (fun b hb => hsettles b (List.mem_cons_of_mem a hb)) hnext
    refine ⟨⟨?_, ?_⟩, by rwa [hjob]⟩
    · rw [List.cons_append, hjob', hrest.job]
      simp only [inTurn_cons, hjob]
    · rw [List.cons_append, hcode', hrest.success_iff]
      simp only [SucceedInTurn, hjob, hcode, and_assoc]

/-- What is done for some things is done for one after another, by whatever does it for each of
them. -/
theorem parted_each {part : α → Action Int} (hsettles : ∀ a ∈ l, Settles P (f a))
    (hpart : ∀ a j, P j → result (part a) j = result (each f [a]) j) (h : P j) :
    Parted (each f l) (l.map part) j := by
  induction l generalizing j with
  | nil => exact ⟨rfl, iff_of_true rfl trivial⟩
  | cons a l ih =>
    have ha : ∀ b ∈ [a], Settles P (f b) := fun b hb =>
      hsettles b (List.mem_cons.mpr (.inl (List.mem_singleton.mp hb)))
    obtain ⟨hsplit, hkept⟩ := parted_each_append ha h l
    exact hsplit.cons (hpart a j h)
      (ih (fun b hb => hsettles b (List.mem_cons_of_mem a hb)) hkept)

/-- What is done for things, or said not to be, comes to an end for all of them. -/
theorem ends_each (hsettles : ∀ a, Settles P (f a)) (h : P j) (l : List α) :
    ∃ code, (result (each f l) j).1 = .ok code := by
  obtain ⟨-, code, hcode, -⟩ := result_each (P := P) hsettles h l
  exact ⟨code, by rw [hcode]⟩

end Action

/-! ## What the tree refuses -/

namespace Tree

variable {t : Tree} {now : Int} {cwd path : String} {content : Content} {c : ContentError}

/-- No file is refused for what it holds when it is written anew. -/
theorem write_anew_ne_content_error (h : t.WellFormed) :
    (t.write now cwd path content false).1 ≠ .error (.content c) := by
  have hs := h.standing (resolve path cwd)
  generalize hr : resolve path cwd = place at hs
  cases hs with
  | root =>
    rw [write_root hr]
    exact fun he => by cases he
  | orphan hno =>
    rw [write_orphan hr hno]
    exact fun he => by cases he
  | free hd hn =>
    rw [write_free hr hd hn]
    exact fun he => by cases he
  | @entry _ _ _ _ i hd hn hi =>
    cases hbody : i.body with
    | directory children =>
      have hdir : i.isDirectory = true := by rw [Inode.isDirectory, hbody]
      rw [write_directory hr hd hn hi hdir]
      exact fun he => by cases he
    | file old =>
      rw [write_file_ok hr hd hn hi hbody (if_neg Bool.false_ne_true)]
      exact fun he => by cases he

/-- All times that a tree has for its nodes have dates. -/
def Dated (t : Tree) : Prop :=
  ∀ i ∈ t.nodes.values, (Calendar.momentOf i.attributes.createdAt).isOk = true ∧
    (Calendar.momentOf i.attributes.modifiedAt).isOk = true

instance (t : Tree) : Decidable t.Dated :=
  inferInstanceAs (Decidable (∀ i ∈ t.nodes.values, _ ∧ _))

/-- What is at a path has a size, if anything is there: it is a directory, or a file that holds a
text, a list or an object. -/
def Sized (t : Tree) (path cwd : String) : Prop :=
  ∀ content, t.content path cwd = .ok content → content.length.isOk = true

end Tree

/-- A volume refuses an edit for what a file holds only if something is to be put behind it. -/
theorem Volume.perform_ne_content_error {v : Volume} (h : v.tree.WellFormed) {cwd : String}
    {e : Edit} (hanew : ∀ path content, e ≠ .write path content true) {c : ContentError} :
    (v.perform cwd e).1 ≠ .error (.content c) := by
  rw [reply_perform]
  have ho := Tree.outcome_perform v.clock cwd h e
  generalize hchange : e.perform v.clock cwd v.tree = change at ho
  cases ho with
  | unchanged => exact fun he => by cases he
  | changed => exact fun he => by cases he
  | refused _ hr =>
    rintro ⟨⟩
    cases e with
    | write path content append =>
      cases append with
      | true => exact hanew path content rfl
      | false => exact Tree.write_anew_ne_content_error h (congrArg Prod.fst hchange)
    | _ => simp [Edit.Refusal] at hr

/-- A directory stays where it is when a file is written. -/
theorem Volume.hasDirectory_perform_write {v : Volume} (h : v.tree.WellFormed) {cwd path : String}
    {content : Content} {append : Bool} {p : Segments} (hp : v.tree.item?.HasDirectory p) :
    (v.perform cwd (.write path content append)).2.tree.item?.HasDirectory p := by
  by_cases hok : (v.perform cwd (.write path content append)).1 = .ok ()
  · obtain ⟨new, -, hputs⟩ := puts_of_perform h (Prod.ext hok rfl)
    have hne : p ≠ resolve path cwd := by
      rintro rfl
      exact ((perform_eq_ok_iff h _ _).mp hok).2.1 hp
    obtain ⟨item, hitem, hkind⟩ := hp
    exact ⟨item, by rw [hputs.elsewhere p hne, hitem], hkind⟩
  · obtain ⟨r, hr⟩ : ∃ r, (v.perform cwd (.write path content append)).1 = .error r := by
      cases hreply : (v.perform cwd (.write path content append)).1 with
      | ok => exact absurd hreply hok
      | error r => exact ⟨r, rfl⟩
    rwa [perform_eq_of_error h hr]

/-- A fault of a path that is not about a content is one of the path. -/
theorem Fault.exists_path {e : PathError} (h : ∀ c, e ≠ .content c) :
    ∃ e', Fault.ofPathError e = .path e' := by
  cases e with
  | content c => exact absurd rfl (h c)
  | _ => exact ⟨_, rfl⟩

/-- What a command is given, with other operands. -/
def Context.on (ctx : Context) (operands : List String) : Context :=
  { ctx with arguments := operands }

open TreeShell.Action Utility

namespace Utility

variable {ctx : Context} {j : Job}

/-- A job whose tree is well-formed and whose outputs take what is written to them. -/
structure Buffered (ctx : Context) (j : Job) : Prop extends Reporting ctx j where
  output : j.pool.Takes (j.pool.endOf ctx.ends.output)

/-- The outputs of a job go on taking what is written while a program does what it may. -/
theorem Buffered.next {α : Type} {p : Program} {action : Action α} {returns : α → Prop}
    (h : Buffered ctx j) (hwithin : Within (p.MayDo ctx) returns action) :
    Buffered ctx (result action j).2 := by
  have hsteps : Steps Effect.Plain j (result action j).2 :=
    (hwithin j).1.mono fun _ => Program.MayDo.plain
  exact ⟨⟨hsteps.wellFormed h.wellFormed, hsteps.pool.takes_endOf h.takes⟩,
    hsteps.pool.takes_endOf h.output⟩

/-! ## What is done for one operand -/

/-- An action that fails, if it does, as the tree refuses it, is done for an operand or reported. -/
theorem ends_orComplain {words : PathError → String} {action : Action Unit}
    (hrefused : ∀ fault, (result action j).1 = .error fault → ∃ e, fault = .path e)
    (htakes : (result action j).2.pool.Takes ((result action j).2.pool.endOf ctx.ends.errors)) :
    ∃ done, (result (orComplain ctx words action) j).1 = .ok done := by
  rw [result_orComplain]
  generalize result action j = outcome at hrefused htakes
  obtain ⟨fault | a, k⟩ := outcome
  · obtain ⟨e, rfl⟩ := hrefused fault rfl
    dsimp only
    rw [result_bind, result_complain htakes]
    exact ⟨false, rfl⟩
  · exact ⟨true, rfl⟩

/-- An edit fails only as the tree refuses it, unless it puts something behind what a file holds. -/
theorem refused_edit (h : j.session.volume.tree.WellFormed) {cwd : String} {e : Edit}
    (hanew : ∀ path content, e ≠ .write path content true) {fault : Fault}
    (hfault : (result (edit cwd e) j).1 = .error fault) : ∃ r, fault = .path r := by
  have hne : ∀ c, (j.session.volume.perform cwd e).1 ≠ .error (.content c) := fun _ =>
    Volume.perform_ne_content_error h hanew
  rw [result_edit] at hfault
  cases hreply : (j.session.volume.perform cwd e).1 with
  | ok a =>
    rw [hreply] at hfault
    cases hfault
  | error r =>
    rw [hreply] at hfault hne
    cases hfault
    exact Fault.exists_path fun c hr => hne c (congrArg Except.error hr)

/-- What is done with what a file holds fails only as the tree refuses it if that is read, too. -/
theorem refused_with_content {path : String} {next : Content → Action Unit} {fault : Fault}
    (hnext : ∀ content fault, (result (next content) j).1 = .error fault → ∃ r, fault = .path r)
    (hfault : (result (ask (fun t => t.content path ctx.cwd) >>= next) j).1 = .error fault) :
    ∃ r, fault = .path r := by
  rw [result_bind, result_ask] at hfault
  cases hc : j.session.volume.tree.content path ctx.cwd with
  | ok content =>
    rw [hc] at hfault
    exact hnext content fault hfault
  | error r =>
    rw [hc] at hfault
    cases hfault
    exact Fault.exists_path fun c hr => Tree.content_ne_content_error (hr ▸ hc)

/-! ## Programs that go through their operands -/

/-- A program does something for each of its operands, if there are any, and something becomes of
each of them. -/
structure GoesThrough (p : Program) (ctx : Context) (f : String → Action Bool) : Prop where
  run : ∀ operands, operands ≠ [] → p.run (ctx.on operands) = each f operands
  settles : ∀ operand, Settles (Buffered ctx) (f operand)

/-- An action that fails with faults of paths alone settles, once it is complained about. -/
theorem settles_of_orComplain {p : Program} {words : PathError → String} {action : Action Unit}
    (hwithin : Within (p.MayDo ctx) (fun _ => True) action)
    (hrefused : ∀ j, Buffered ctx j → ∀ fault, (result action j).1 = .error fault →
      ∃ r, fault = .path r) : Settles (Buffered ctx) (orComplain ctx words action) := by
  intro j h
  exact ⟨ends_orComplain (hrefused j h) (h.next hwithin).takes, h.next (within_orComplain hwithin)⟩

/-- An edit that joins no contents settles, once it is complained about. -/
theorem settles_edit {p : Program} {words : PathError → String} {e : Edit}
    (hp : p.MayDo ctx (.edit ctx.cwd e)) (hanew : ∀ path content, e ≠ .write path content true) :
    Settles (Buffered ctx) (orComplain ctx words (edit ctx.cwd e)) :=
  settles_of_orComplain (.edit hp) fun _ h _ hfault => refused_edit h.wellFormed hanew hfault

/-- A command with operands has arguments. -/
theorem not_isEmpty_on {operands : List String} (hne : operands ≠ []) :
    ¬ (ctx.on operands).arguments.isEmpty = true :=
  mt List.isEmpty_iff.mp hne

/-- A removal goes through its operands. -/
theorem goesThrough_rm (hhelp : ctx.flag ["help"] = false) :
    GoesThrough .rm ctx (removeOperand ctx) where
  run operands hne := by
    have hoff : (ctx.on operands).flag ["help"] = false := hhelp
    change rm (ctx.on operands) = _
    rw [rm, hoff, Bool.false_or, if_neg (not_isEmpty_on hne)]
    rfl
  settles operand _ h :=
    ⟨(h.toReporting.removal_next operand).1, h.next (within_removeOperand rfl operand)⟩

/-- A program that makes an edit for each of its operands. -/
theorem goesThrough_eachOperand {p : Program} {missing : String} {words : String → String}
    {e : String → Edit} (hrun : ∀ operands, p.run (ctx.on operands) =
      eachOperand (ctx.on operands) missing words fun path => edit ctx.cwd (e path))
    (hp : ∀ path, p.MayDo ctx (.edit ctx.cwd (e path)))
    (hanew : ∀ operand path content, e operand ≠ .write path content true) :
    GoesThrough p ctx fun path =>
      orComplain ctx (fun r => words path ++ ": " ++ reason r) (edit ctx.cwd (e path)) where
  run operands hne := by
    rw [hrun, eachOperand, if_neg (not_isEmpty_on hne)]
    rfl
  settles operand := settles_edit (hp operand) (hanew operand)

/-- To make directories goes through its operands. -/
theorem goesThrough_mkdir : ∃ f, GoesThrough .mkdir ctx f := by
  refine ⟨_, goesThrough_eachOperand (e := fun path =>
    if ctx.flag ["p", "parents"] then .makeDirectories path else .createDirectory path)
    (fun _ => rfl) (fun path => ?_) fun operand path content => ?_⟩
  · cases ctx.flag ["p", "parents"] with
    | true => exact ⟨rfl, rfl⟩
    | false => exact ⟨rfl, rfl⟩
  · cases ctx.flag ["p", "parents"] with
    | true => exact nofun
    | false => exact nofun

/-- A touch goes through its operands. -/
theorem goesThrough_touch : ∃ f, GoesThrough .touch ctx f :=
  ⟨_, goesThrough_eachOperand (fun _ => rfl) (fun _ => ⟨rfl, rfl⟩) fun _ _ _ => nofun⟩

/-- To print files goes through its operands. -/
theorem goesThrough_cat : GoesThrough .cat ctx (catOperand ctx) where
  run operands hne := by
    change cat (ctx.on operands) = _
    rw [cat, if_neg (not_isEmpty_on hne)]
    rfl
  settles operand := by
    by_cases hdash : operand = "-"
    · intro j h
      refine ⟨?_, h.next (within_catOperand rfl operand)⟩
      have hgrows : j.pool.GrowsTo (j.pool.read ctx.ends.input).2 := j.pool.growsTo_read _
      have hread : result (read ctx.ends.input) j = (.ok (j.pool.read ctx.ends.input).1,
          { j with pool := (j.pool.read ctx.ends.input).2 }) := rfl
      rw [catOperand, if_pos hdash, result_bind, copyInput, result_bind, hread]
      dsimp only
      rw [result_put (hgrows.takes_endOf h.output)]
      exact ⟨true, rfl⟩
    · rw [catOperand, if_neg hdash]
      exact settles_of_orComplain (p := .cat) ((Within.ask _).andThen fun _ => within_put _)
        fun j h _ => refused_with_content fun content fault hfault => by
          rw [result_put h.output] at hfault
          cases hfault

/-- The programs that go through all of their operands, whatever these are. -/
def throughAll : List Program := [.rm, .mkdir, .touch, .cat]

/-- Each of these programs goes through its operands. -/
theorem exists_goesThrough (hhelp : ctx.flag ["help"] = false) {p : Program}
    (hp : p ∈ throughAll) : ∃ f, GoesThrough p ctx f := by
  simp only [throughAll, List.mem_cons, List.not_mem_nil, or_false] at hp
  rcases hp with rfl | rfl | rfl | rfl
  · exact ⟨_, goesThrough_rm hhelp⟩
  · exact goesThrough_mkdir
  · exact goesThrough_touch
  · exact ⟨_, goesThrough_cat⟩

/-- A program that goes through its operands goes through some and then through the others. -/
theorem parted_in_two {p : Program} {f : String → Action Bool} {P : Job → Prop}
    {xs ys : List String}
    (hrun : ∀ operands, operands ≠ [] → p.run (ctx.on operands) = each f operands)
    (hsettles : ∀ x ∈ xs, Settles P (f x)) (h : P j) (hxs : xs ≠ []) (hys : ys ≠ []) :
    Parted (p.run (ctx.on (xs ++ ys))) [p.run (ctx.on xs), p.run (ctx.on ys)] j := by
  rw [hrun xs hxs, hrun ys hys, hrun _ (List.append_ne_nil_of_left_ne_nil hxs ys)]
  exact (parted_each_append hsettles h ys).1

/-! ## What is told about nodes -/

/-- A success has a value. -/
theorem exists_of_isOk {ε α : Type} {outcome : Except ε α} (h : outcome.isOk = true) :
    ∃ a, outcome = .ok a := by
  cases outcome with
  | ok a => exact ⟨a, rfl⟩
  | error e => cases h

/-- A time with a date can be written at length. -/
theorem exists_longTime {ms : Int} (h : (Calendar.momentOf ms).isOk = true) :
    ∃ date, longTime ms = .ok date := by
  obtain ⟨m, hm⟩ := exists_of_isOk h
  exact ⟨m.long, by rw [longTime, hm]; rfl⟩

/-- What is sized at a path has a size. -/
theorem exists_size {t : Tree} {path cwd : String} {n : Nat} {i : Inode}
    (hl : t.lookup (resolve path cwd) = some (n, i)) (hsized : t.Sized path cwd) :
    ∃ size, i.size = .ok size := by
  rw [Inode.size]
  cases hbody : i.body with
  | directory children => exact ⟨_, rfl⟩
  | file content =>
    refine exists_of_isOk (hsized content ?_)
    rw [Tree.content, hl]
    dsimp only
    rw [hbody]

/-- A node is told about, or nothing is at the path. -/
theorem exists_statText {t : Tree} {path cwd : String} (hdated : t.Dated)
    (hsized : t.Sized path cwd) : t.stat path cwd = .error (.notFound path) ∨
      ∃ info text, t.stat path cwd = .ok info ∧ statText info = .ok text := by
  cases hl : t.lookup (resolve path cwd) with
  | none => exact .inl (by rw [Tree.stat, hl])
  | some e =>
    obtain ⟨n, i⟩ := e
    have hi : i ∈ t.nodes.values :=
      OrderedMap.mem_values_iff.mpr ⟨n, (Tree.lookup_eq_some_iff.mp hl).2⟩
    obtain ⟨size, hsize⟩ := exists_size hl hsized
    obtain ⟨made, hmade⟩ := exists_longTime (hdated i hi).1
    obtain ⟨changed, hchanged⟩ := exists_longTime (hdated i hi).2
    refine .inr ⟨⟨nameOf (resolve path cwd), i.isDirectory, size, i.attributes⟩, ?_⟩
    rw [Tree.stat, hl]
    dsimp only
    rw [Tree.describe, hsize, statText]
    dsimp only
    rw [hmade, hchanged]
    exact ⟨_, rfl, rfl⟩

/-- A job with a tree, which telling about its nodes leaves as it is. -/
def Telling (ctx : Context) (t : Tree) (j : Job) : Prop :=
  Buffered ctx j ∧ j.session.volume.tree = t

/-- The state of an operand can be told if all times have dates and what is there has a size. -/
theorem settles_statOperand {t : Tree} {path : String} (hdated : t.Dated)
    (hsized : t.Sized path ctx.cwd) : Settles (Telling ctx t) (statOperand ctx path) := by
  rintro j ⟨h, ht⟩
  have hnext := h.next (within_statOperand (p := .stat) path)
  suffices hresult : ∃ done pool, result (statOperand ctx path) j = (.ok done, { j with pool }) by
    obtain ⟨done, pool, hresult⟩ := hresult
    rw [hresult] at hnext ⊢
    exact ⟨⟨done, rfl⟩, hnext, ht⟩
  rw [statOperand, result_bind, result_attempt, result_ask, ht]
  rcases exists_statText hdated hsized with hnone | ⟨info, text, hinfo, htext⟩
  · rw [hnone]
    dsimp only [Fault.ofPathError]
    rw [result_bind, result_complain h.takes]
    exact ⟨false, _, rfl⟩
  · have hlift : result (liftM (statText info) : Action String) j = (.ok text, j) := by
      rw [htext]
      rfl
    rw [hinfo]
    dsimp only
    rw [result_bind, hlift]
    dsimp only
    rw [result_bind, result_put h.output]
    exact ⟨true, _, rfl⟩

/-- The states of operands are told one after another. -/
theorem run_stat_on (operands : List String) (hne : operands ≠ []) :
    Program.stat.run (ctx.on operands) = each (statOperand ctx) operands := by
  change stat (ctx.on operands) = _
  rw [stat, if_neg (not_isEmpty_on hne)]
  rfl

/-! ## What is put into a directory -/

/-- Sources are put to a destination in one run as in one run for each of them. -/
structure Singly (p : Program) (ctx : Context) (sources : List String) (destination : String)
    (j : Job) : Prop where
  ends : ∃ code, (result (p.run (ctx.on (sources ++ [destination]))) j).1 = .ok code
  parted : Parted (p.run (ctx.on (sources ++ [destination])))
    (sources.map fun source => p.run (ctx.on [source, destination])) j

/-- Sources are put to a destination one after another, and a failure of each is complained
about. -/
theorem result_withDestination_on {name destination : String}
    {action : Bool → String → String → Action Unit} {sources : List String}
    (hhelp : ctx.flag ["help"] = false) (hne : sources ≠ [])
    (hdirectory : 1 < sources.length →
      j.session.volume.tree.isDirectory destination ctx.cwd = true) :
    result (withDestination (ctx.on (sources ++ [destination])) name action) j =
      result (each (fun source => orComplain ctx (fun e => name ++ ": " ++ e.message)
        (action (j.session.volume.tree.isDirectory destination ctx.cwd) source destination))
          sources) j := by
  have hoff : (ctx.on (sources ++ [destination])).flag ["help"] = false := hhelp
  have hoperands : (ctx.on (sources ++ [destination])).arguments = sources ++ [destination] := rfl
  exact result_withDestination hoff hoperands hne hdirectory name action

/-- What is put into a directory is put there one source after another, as long as what is done for
one does not hide the directory from the next. -/
theorem singly_withDestination {p : Program} {name : String}
    {action : Bool → String → String → Action Unit} {P : Job → Prop} {sources : List String}
    {destination : String} (hhelp : ctx.flag ["help"] = false) (hne : sources ≠ [])
    (hrun : ∀ operands, p.run (ctx.on operands) = withDestination (ctx.on operands) name action)
    (hdirectory : j.session.volume.tree.isDirectory destination ctx.cwd = true)
    (hturn : ∀ k, P k → ∀ source,
      action (k.session.volume.tree.isDirectory destination ctx.cwd) source destination =
        action true source destination)
    (hsettles : ∀ source, Settles P (orComplain ctx (fun e => name ++ ": " ++ e.message)
      (action true source destination))) (h : P j) : Singly p ctx sources destination j := by
  have hwhole : result (p.run (ctx.on (sources ++ [destination]))) j =
      result (each (fun source => orComplain ctx (fun e => name ++ ": " ++ e.message)
        (action true source destination)) sources) j := by
    rw [hrun, result_withDestination_on hhelp hne fun _ => hdirectory, hdirectory]
  have hpart : ∀ source k, P k → result (p.run (ctx.on [source, destination])) k =
      result (each (fun source => orComplain ctx (fun e => name ++ ": " ++ e.message)
        (action true source destination)) [source]) k := by
    intro source k hk
    have hone : ¬ 1 < [source].length := Nat.lt_irrefl 1
    have hsingle :
        result (withDestination (ctx.on ([source] ++ [destination])) name action) k = _ :=
      result_withDestination_on hhelp (List.cons_ne_nil source []) fun hmany => absurd hmany hone
    simp only [hturn k hk] at hsingle
    rw [hrun]
    exact hsingle
  exact ⟨by rw [hwhole]; exact ends_each hsettles h sources,
    (parted_each (fun a _ => hsettles a) hpart h).congr hwhole⟩

/-- A job that has a directory at a place. -/
def Housing (ctx : Context) (place : Segments) (j : Job) : Prop :=
  Buffered ctx j ∧ j.session.volume.tree.item?.HasDirectory place

/-- A report leaves the session as it is. -/
theorem session_orComplain {words : PathError → String} {action : Action Unit}
    (htakes : (result action j).2.pool.Takes ((result action j).2.pool.endOf ctx.ends.errors)) :
    (result (orComplain ctx words action) j).2.session = (result action j).2.session := by
  rw [result_orComplain]
  generalize result action j = outcome at htakes
  obtain ⟨fault | a, k⟩ := outcome
  · cases fault with
    | path e =>
      dsimp only
      rw [result_bind, result_complain htakes]
      rfl
    | _ => rfl
  · rfl

/-- A copy leaves a directory where it is. -/
theorem settles_copy {words : PathError → String} (place : Segments) (source landing : String) :
    Settles (Housing ctx place) (orComplain ctx words do
      let content ← ask fun t => t.content source ctx.cwd
      edit ctx.cwd (.write landing content false)) := by
  rintro j ⟨h, hplace⟩
  have hcopy : Within (Program.cp.MayDo ctx) (fun _ => True) _ := within_copy rfl source landing
  have hsettles : Settles (Buffered ctx) (orComplain ctx words do
      let content ← ask fun t => t.content source ctx.cwd
      edit ctx.cwd (.write landing content false)) :=
    settles_of_orComplain hcopy fun k hk _ => refused_with_content fun content fault hfault =>
      refused_edit hk.wellFormed (by rintro _ _ ⟨⟩) hfault
  obtain ⟨hdone, hbuffered⟩ := hsettles j h
  refine ⟨hdone, hbuffered, ?_⟩
  rw [session_orComplain (h.next hcopy).takes, result_bind, result_ask]
  cases j.session.volume.tree.content source ctx.cwd with
  | error e => exact hplace
  | ok content =>
    dsimp only
    rw [result_edit]
    exact Volume.hasDirectory_perform_write h.wellFormed hplace

/-- A path is a directory just if the tree has one there. -/
theorem isDirectory_iff {t : Tree} {path cwd : String} :
    t.isDirectory path cwd = true ↔ t.item?.HasDirectory (resolve path cwd) := by
  rw [Tree.isDirectory_eq]
  exact PathMap.hasDirectory_iff_any.symm

/-- Copies into a directory are made in one run as in one for each source. -/
theorem singly_cp (h : Buffered ctx j) (hhelp : ctx.flag ["help"] = false) {sources : List String}
    {destination : String} (hne : sources ≠ [])
    (hdirectory : j.session.volume.tree.isDirectory destination ctx.cwd = true) :
    Singly .cp ctx sources destination j := by
  have hrun : ∀ operands, Program.cp.run (ctx.on operands) = withDestination (ctx.on operands) "cp"
      (fun intoDirectory source destination => do
        let content ← ask fun t => t.content source ctx.cwd
        edit ctx.cwd (.write (landingPath destination source intoDirectory) content false)) :=
    fun _ => rfl
  refine singly_withDestination (P := Housing ctx (resolve destination ctx.cwd)) hhelp hne hrun
    hdirectory (fun k hk source => ?_) (fun source => settles_copy _ source _)
    ⟨h, isDirectory_iff.mp hdirectory⟩
  rw [isDirectory_iff.mpr hk.2]

/-- Moves into a directory are made in one run as in one for each source. -/
theorem singly_mv (h : Buffered ctx j) (hhelp : ctx.flag ["help"] = false) {sources : List String}
    {destination : String} (hne : sources ≠ [])
    (hdirectory : j.session.volume.tree.isDirectory destination ctx.cwd = true) :
    Singly .mv ctx sources destination j := by
  have hrun : ∀ operands, Program.mv.run (ctx.on operands) = withDestination (ctx.on operands) "mv"
      fun _ source destination => edit ctx.cwd (.move source destination) := fun _ => rfl
  refine singly_withDestination hhelp hne hrun hdirectory (fun _ _ _ => rfl) (fun source => ?_) h
  exact settles_edit (p := .mv) ⟨rfl, rfl⟩ (by rintro _ _ ⟨⟩)

/-- The programs that put sources into a directory. -/
def intoDirectory : List Program := [.cp, .mv]

/-! ## All of them -/

/-- Some operands and others behind them are gone through as in two runs, and sources that are put
into a directory as in one run for each of them. -/
structure InPortions (ctx : Context) (j : Job) : Prop where
  /-- Whatever the operands are, the run comes to its end. -/
  through : ∀ p ∈ throughAll, ∀ xs ys, xs ≠ [] → ys ≠ [] →
    (∃ code, (result (p.run (ctx.on (xs ++ ys))) j).1 = .ok code) ∧
      Parted (p.run (ctx.on (xs ++ ys))) [p.run (ctx.on xs), p.run (ctx.on ys)] j
  /-- What has no size cannot be told about, which ends the run. -/
  told : ∀ xs ys, xs ≠ [] → ys ≠ [] → (∀ x ∈ xs, j.session.volume.tree.Sized x ctx.cwd) →
    Parted (Program.stat.run (ctx.on (xs ++ ys)))
      [Program.stat.run (ctx.on xs), Program.stat.run (ctx.on ys)] j
  into : ∀ p ∈ intoDirectory, ∀ sources destination, sources ≠ [] →
    j.session.volume.tree.isDirectory destination ctx.cwd = true →
      Singly p ctx sources destination j

/-- From every tree whose times have dates, in every working directory and with all options but the
one for help, operands are gone through in portions. -/
theorem in_portions (hwellFormed : j.session.volume.tree.WellFormed)
    (hdated : j.session.volume.tree.Dated) (hhelp : ctx.flag ["help"] = false)
    (houtput : j.pool.Takes (j.pool.endOf ctx.ends.output))
    (herrors : j.pool.Takes (j.pool.endOf ctx.ends.errors)) : InPortions ctx j := by
  have h : Buffered ctx j := ⟨⟨hwellFormed, herrors⟩, houtput⟩
  refine ⟨fun p hp xs ys hxs hys => ?_, fun xs ys hxs hys hsized => ?_,
    fun p hp sources destination hne hdirectory => ?_⟩
  · obtain ⟨f, hf⟩ := exists_goesThrough hhelp hp
    refine ⟨?_, parted_in_two hf.run (fun x _ => hf.settles x) h hxs hys⟩
    rw [hf.run _ (List.append_ne_nil_of_left_ne_nil hxs ys)]
    exact ends_each hf.settles h _
  · exact parted_in_two run_stat_on (P := Telling ctx j.session.volume.tree)
      (fun x hx => settles_statOperand hdated (hsized x hx)) ⟨h, rfl⟩ hxs hys
  · simp only [intoDirectory, List.mem_cons, List.not_mem_nil, or_false] at hp
    rcases hp with rfl | rfl
    · exact singly_cp h hhelp hne hdirectory
    · exact singly_mv h hhelp hne hdirectory

/-- An operand that is missing does not keep the one behind it from being removed. -/
theorem portions_of_furnished :
    InPortions (given [] "/a") (jobOn Volume.furnished) ∧
      (result (Program.rm.run ((given [] "/a").on (["f", "g"] ++ ["../c"])))
        (jobOn Volume.furnished)).1 = .ok failure ∧
      (result (Program.rm.run ((given [] "/a").on (["f", "g"] ++ ["../c"])))
        (jobOn Volume.furnished)).2.session.volume.tree.item? ["c"] = none :=
  ⟨in_portions Volume.fresh_furnished.wellFormed (by decide +kernel) rfl Nat.zero_lt_one
    Nat.zero_lt_one, rfl, rfl⟩

/-- A volume with a file that a record had a number for, and one with a text. -/
def numbered : Volume :=
  .unsaved (.ofNode (.directory (.ofDirectory 0)
    [("a", .file (.ofFile 0) (.int 5)), ("b", .file (.ofFile 0) (.string "x"))])) 0

/-- A file that holds a number has no size. Nothing is told about an operand behind it, and
something in a run for that alone. -/
theorem not_in_portions_of_number :
    numbered.Fresh ∧ numbered.tree.Dated ∧ ¬ numbered.tree.Sized "a" "/" ∧
      ¬ Parted (Program.stat.run ((given [] "/").on (["a"] ++ ["b"])))
        [Program.stat.run ((given [] "/").on ["a"]), Program.stat.run ((given [] "/").on ["b"])]
        (jobOn numbered) := by
  refine ⟨Or.inr ⟨.object [("type", .string "directory"), ("children", .object
    [("a", .object [("type", .string "file"), ("content", .int 5)]),
      ("b", .object [("type", .string "file"), ("content", .string "x")])])], rfl⟩,
    by decide +kernel, fun h => ?_, fun h => ?_⟩
  · cases h (.int 5) rfl
  · have hheard := congrArg (fun k => k.pool.heard (.keeper 0)) h.job
    revert hheard
    decide +kernel

end Utility

end TreeShell
