import TreeShell.Proofs.Session.Lines
import TreeShell.Web.Endpoint

/-!
# What a browser can do

However requests are read, the session behind the endpoints is changed by those alone that ask to
run a line, and by these just as the line changes it. So a server only ever has sessions that lines
lead to, and it fails to answer just at the lines that break off. As requests are read here, one
that asks to run a line is a post to the path of the endpoint that has the line in its body.
-/

namespace TreeShell.Web

/-- The line that a request asks to run, if it does. -/
def Routed.line? : Routed → Option String
  | .endpoint .execute value => textField? "command" value
  | _ => none

namespace Server

variable {R : Type} {route : R → Routed} {s : Server} {line : String}

/-- A request that asks to run no line changes nothing. -/
theorem serve_of_line?_none {r : Routed} (h : r.line? = none) : (s.serve r).2 = s := by
  cases r with
  | answered r => rfl
  | endpoint e value =>
    cases e with
    | index => rfl
    | execute =>
      have hline : textField? "command" value = none := h
      rw [serve, handle, hline]
    | complete =>
      rw [serve, handle]
      split <;> rfl

/-- A request that asks to run a line is answered by running it. -/
theorem serve_of_line? {r : Routed} (h : r.line? = some line) : s.serve r = s.execute line := by
  cases r with
  | answered r => cases h
  | endpoint e value =>
    cases e with
    | index => cases h
    | execute =>
      have hline : textField? "command" value = some line := h
      rw [serve, handle, hline]
    | complete => cases h

/-- A line changes the session behind the endpoints as it does anywhere. -/
theorem execute_snd (s : Server) (line : String) :
    (s.execute line).2 = { s with session := (s.session.run line).2 } := by
  rw [execute]

/-- A line fails the server just if it breaks off. -/
theorem execute_eq_failure_iff (s : Server) (line : String) :
    (s.execute line).1 = .status 500 ↔ ∃ b, (s.session.run line).1.code = .error b := by
  rw [execute]
  generalize s.session.run line = result
  obtain ⟨⟨code, output, errors⟩, session⟩ := result
  cases code with
  | error b => exact iff_of_true rfl ⟨b, rfl⟩
  | ok code => exact iff_of_false (fun h => by cases h) fun ⟨b, h⟩ => by cases h

/-- The server after requests that came at times. -/
def after (route : R → Routed) (s : Server) : List (Int × R) → Server
  | [] => s
  | (now, r) :: rest =>
    after route ({ s with session := s.session.atTime now }.serve (route r)).2 rest

/-- The session of a server that was started is one that a boot comes to. -/
theorem reached_of_start {config : Config} {clock : Int} {storage : Storage}
    (h : start config builtIns clock storage = .ok s) : s.session.Reached := by
  rw [start] at h
  generalize storage.storeFor config = opened at h
  obtain ⟨storage', store⟩ := opened
  dsimp only at h
  cases hrun : (Boot.start config store).run builtIns clock storage' with
  | mk outcome rest =>
    rw [hrun] at h
    obtain ⟨b, storage''⟩ := rest
    cases outcome with
    | error e => cases h
    | ok session =>
      cases h
      exact .boot (congrArg Prod.fst hrun)

/-- A request leads to a session that lines lead to. -/
theorem reached_serve (h : s.session.Reached) (r : Routed) : (s.serve r).2.session.Reached := by
  cases hline : r.line? with
  | none => rwa [serve_of_line?_none hline]
  | some line =>
    rw [serve_of_line? hline, execute_snd]
    dsimp only
    exact h.run line

/-- A server only ever has sessions that lines lead to. -/
theorem reached_after (h : s.session.Reached) (rs : List (Int × R)) :
    (s.after route rs).session.Reached := by
  induction rs generalizing s with
  | nil => exact h
  | cons request rest ih => exact ih (reached_serve (h.clock request.1) _)

/-- What an answer comes to, if the request may ask to run a line. -/
structure Answers (s : Server) (r : Routed) : Prop where
  /-- Without a line nothing changes. -/
  quiet : r.line? = none → (s.serve r).2 = s
  /-- A line changes the session as it does anywhere. -/
  runs : ∀ line, r.line? = some line →
    (s.serve r).2 = { s with session := (s.session.run line).2 }
  /-- The server fails at a line just if a stage that the line comes to stumbles. -/
  fails_iff : ∀ line, r.line? = some line →
    ((s.serve r).1 = .status 500 ↔ ∃ v ∈ s.session.visits line .apart, v.Stumbles)

/-- Every session that lines lead to answers so. -/
theorem answers_of_reached (h : s.session.Reached) (r : Routed) : s.Answers r where
  quiet := serve_of_line?_none
  runs line hline := by rw [serve_of_line? hline, execute_snd]
  fails_iff line hline := by
    rw [serve_of_line? hline, execute_eq_failure_iff, Session.run_eq]
    dsimp only
    exact (Session.runOn_spec h.sound line .apart).2

/-- Whatever requests were answered since a server was started, and however they are read, the
session behind it is one that lines lead to, and the next request changes nothing but by its
line. -/
theorem answers_after {config : Config} {clock : Int} {storage : Storage}
    (h : start config builtIns clock storage = .ok s) (rs : List (Int × R)) (r : Routed) :
    (s.after route rs).session.Reached ∧ (s.after route rs).Answers r :=
  have hreached := reached_after (reached_of_start h) rs
  ⟨hreached, answers_of_reached hreached r⟩

end Server

/-! ## Requests that ask to run a line -/

namespace Place

/-- One path leads to the endpoint that runs lines. -/
theorem ofPath?_eq_execute_iff {path : List Char} :
    ofPath? path = some (.endpoint .execute) ↔ path = "/api/execute".toList := by
  constructor
  · intro h
    rw [ofPath?] at h
    split at h
    · cases h
    · next hpath => rw [← hpath, String.toList_ofList]
    · cases h
    · split at h
      · split at h <;> cases h
      · cases h
  · rintro rfl
    rfl

/-- A place refuses no request that has one of its methods and asks for no lasting connection. -/
theorem refusal?_eq_none_iff {place : Place} {r : Request} :
    place.refusal? r = none ↔ place.allows r.method = true ∧ r.target.lasting = false := by
  rw [refusal?]
  cases place.allows r.method <;> cases r.target.lasting <;> simp

end Place

namespace Request

variable {r : Request} {line : String}

/-- At a place that allows its method, a request asks for a line just if it is a post to the
endpoint that runs lines, with the line in the value of its body. -/
theorem line?_routedAt_eq_some_iff {place : Place} (h : place.allows r.method = true) :
    (r.routedAt place).line? = some line ↔ place = .endpoint .execute ∧ r.method = "POST" ∧
      textField? "command" (r.body.bind Body.json?) = some line := by
  unfold routedAt
  split
  · next hmethod =>
    refine iff_of_false (fun h => by cases h) fun ⟨_, hpost, _⟩ => ?_
    rw [hpost] at hmethod
    exact absurd hmethod (by decide)
  · exact iff_of_false (fun h => by cases h) fun ⟨hplace, _⟩ => by cases hplace
  · exact iff_of_false (fun h => by cases h) fun ⟨hplace, _⟩ => by cases hplace
  · next e hother _ =>
    cases e with
    | execute =>
      have hmethod : r.method = "POST" ∨ r.method = "OPTIONS" := by simpa [Place.allows] using h
      have hpost := hmethod.resolve_right hother
      exact ⟨fun hline => ⟨rfl, hpost, hline⟩, fun hline => hline.2.2⟩
    | index => exact iff_of_false (fun h => by cases h) fun ⟨hplace, _⟩ => by cases hplace
    | complete => exact iff_of_false (fun h => by cases h) fun ⟨hplace, _⟩ => by cases hplace

/-- A request is found to ask for a line just if it is a post to the path of the endpoint that runs
lines, not for a lasting connection, and has the line in the value of its body. -/
theorem line?_routed_eq_some_iff :
    r.routed.line? = some line ↔ r.target.path = "/api/execute".toList ∧ r.method = "POST" ∧
      r.target.lasting = false ∧ textField? "command" (r.body.bind Body.json?) = some line := by
  rw [routed]
  split
  · next hpath =>
    refine iff_of_false (fun h => by cases h) fun ⟨hexecute, _⟩ => ?_
    rw [hpath] at hexecute
    cases hexecute
  split
  · next place hplace =>
    have hpath : place = .endpoint .execute ↔ r.target.path = "/api/execute".toList := by
      rw [← Place.ofPath?_eq_execute_iff, hplace, Option.some.injEq]
    rw [← hpath]
    split
    · next code hrefusal =>
      refine iff_of_false (fun h => by cases h) fun ⟨hexecute, hpost, hlasting, _⟩ => ?_
      have hnone : place.refusal? r = none :=
        Place.refusal?_eq_none_iff.mpr ⟨by rw [hexecute, hpost]; rfl, hlasting⟩
      rw [hnone] at hrefusal
      cases hrefusal
    · next hnone =>
      obtain ⟨hallows, hlasting⟩ := Place.refusal?_eq_none_iff.mp hnone
      rw [line?_routedAt_eq_some_iff hallows]
      simp only [hlasting, true_and]
  · next hnone =>
    have hpath : r.target.path ≠ "/api/execute".toList := by
      rw [Ne, ← Place.ofPath?_eq_execute_iff, hnone]
      exact fun h => by cases h
    split
    · exact iff_of_false (fun h => by cases h) fun ⟨hexecute, _⟩ => hpath hexecute
    · exact iff_of_false (fun h => by cases h) fun ⟨hexecute, _⟩ => hpath hexecute

end Request

/-- A request that changes anything is a post of a line to the endpoint that runs lines. -/
theorem Server.posts_of_changed {s : Server} {r : Request} (h : (s.answer r).2 ≠ s) :
    r.target.path = "/api/execute".toList ∧ r.method = "POST" ∧
      ∃ line, textField? "command" (r.body.bind Body.json?) = some line := by
  cases hline : r.routed.line? with
  | none => exact absurd (serve_of_line?_none hline) h
  | some line =>
    obtain ⟨hpath, hpost, -, hfield⟩ := Request.line?_routed_eq_some_iff.mp hline
    exact ⟨hpath, hpost, line, hfield⟩

end TreeShell.Web
