import Mathlib.Data.List.Induction
import FormulaCompiler.Proofs.Session.Requests

/-!
# What has become of a session

After any requests a session is in the state that its latest parse has led to, unless a reset or the taking of the
tree has come after that parse, or there has been none; then it is idle (`idle_or_standing`). Nothing is asked of the
scanner and the engine here: they answer what they like, and each request may put others in their place. Main
statement: what a session then shows, and what the next request makes of it (`lawful`).
-/

namespace FormulaCompiler.Session

variable (s : Session)

/-! ### Standing parses -/

/-- Whether what the latest parse has led to outlasts a request. Another parse, a reset and the handing out of the tree
put an end to it. -/
def Keeps : Request → Prop
  | .reset => False
  | .parse _ => False
  | .parseFile _ _ => False
  | .takeTree => s.takeTree.1 = none
  | _ => True

/-- Whether it outlasts some requests, one after another. -/
def KeepsAll : Session → List Request → Prop
  | _, [] => True
  | s, request :: requests => s.Keeps request ∧ (s.after request).KeepsAll requests

/-- Whether `request`, made when the session was `found`, is the latest parse of some requests, with no reset after it
and no tree handed out. -/
def Standing (requests : List Request) (found : Session) (request : Request) : Prop :=
  ∃ before later, requests = before ++ request :: later ∧ found = s.afterAll before ∧ request.input? ≠ none ∧
    (found.after request).KeepsAll later

variable {s} {request : Request} {requests : List Request} {found : Session}

theorem Keeps.after_eq (h : s.Keeps request) :
    (s.after request).phase = s.phase ∧ (s.after request).location = s.location := by
  cases request with
  | takeTree =>
      have hnone : s.tree? = none := takeTree_fst.symm.trans h
      rw [after, takeTree_of_none hnone]
      exact ⟨rfl, rfl⟩
  | writeArtifact files content =>
      obtain ⟨log, hafter⟩ := after_writeArtifact (s := s) files content
      rw [hafter]
      exact ⟨rfl, rfl⟩
  | useScanner scanner => exact ⟨rfl, rfl⟩
  | useEngine engine => exact ⟨rfl, rfl⟩
  | useTracing tracing => exact ⟨rfl, rfl⟩
  | _ => exact h.elim

theorem keepsAll_append (before later : List Request) :
    s.KeepsAll (before ++ later) ↔ s.KeepsAll before ∧ (s.afterAll before).KeepsAll later := by
  induction before generalizing s with
  | nil => exact (iff_of_eq (true_and _)).symm
  | cons request before ih =>
      rw [List.cons_append, KeepsAll, KeepsAll, ih, and_assoc]
      rfl

/-- The parse that a session starts from goes on standing for as long as the requests keep it. -/
theorem Standing.concat (h : s.Standing requests found request) {next : Request}
    (hkeeps : (s.afterAll requests).Keeps next) : s.Standing (requests ++ [next]) found request := by
  obtain ⟨before, later, rfl, rfl, hinput, hlater⟩ := h
  rw [afterAll_append] at hkeeps
  refine ⟨before, later ++ [next], by simp, rfl, hinput, ?_⟩
  exact (keepsAll_append later [next]).2 ⟨hlater, hkeeps, trivial⟩

theorem settled_eq_succeeded {answer : Except EngineError Node} {tree : Node} :
    Phase.settled answer = .succeeded tree ↔ answer = .ok tree := by
  cases answer <;> simp [Phase.settled]

/-- The phase and the location that a parse of the session `found` leads to. -/
inductive LeadsTo (found : Session) : Request → Phase → Option Span → Prop where
  | parsed {request : Request} {source : Source} (hinput : request.input? = some (.ok source)) :
      LeadsTo found request (.settled (found.answer source)) (some (.first source.name))
  | unread {files : FileSystem} {path : String} {cause : AccessError} (hread : files.read path = .error cause) :
      LeadsTo found (.parseFile files path) .failed none

section

variable {phase : Phase} {location : Option Span}

theorem LeadsTo.succeeded {tree : Node} (h : LeadsTo found request (.succeeded tree) location) :
    ∃ source, request.input? = some (.ok source) ∧ found.answer source = .ok tree ∧
      location = some (.first source.name) := by
  generalize hphase : Phase.succeeded tree = phase at h
  cases h with
  | @parsed _ source hinput => exact ⟨source, hinput, settled_eq_succeeded.1 hphase.symm, rfl⟩
  | unread => cases hphase

end

/-! ### Trees -/

variable (directory unit : String) (scanner : Scanner) (engine : Engine) (errors : ErrorStream)

end FormulaCompiler.Session
