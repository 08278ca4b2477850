import Retrieval.Run.Basic
import Retrieval.Run.Stored

namespace Retrieval

def World.ofResult (result : ResultSet) : World where
  connect _ := .ok ()
  query _ sql columns := result.read sql columns
  deliver _ _ _ _ := .ok ()

namespace Run

variable {w : World} {history history' : History} {α β : Type} {x : Run α}

theorem after_bind_ok {a : α} (h : after w history x = (.ok a, history')) (f : α → Run β) :
    after w history (x >>= f) = after w history' (f a) := by
  rw [after] at h
  simp only [after, ReaderT.run_bind, ExceptT.run_bind, StateT.run_bind, h]
  rfl

theorem after_bind_error {e : Run.Error} (h : after w history x = (.error e, history')) (f : α → Run β) :
    after w history (x >>= f) = (.error e, history') := by
  rw [after] at h
  simp only [after, ReaderT.run_bind, ExceptT.run_bind, StateT.run_bind, h]
  rfl

theorem after_map {y : Except Run.Error α} (h : after w history x = (y, history')) (f : α → β) :
    after w history (x >>= fun a => pure (f a)) = (y.map f, history') := by
  cases y with
  | error e => exact after_bind_error h _
  | ok a => exact after_bind_ok h _

theorem after_read : after w history read = (.ok w, history) := rfl

theorem after_get : after w history get = (.ok history, history) := rfl

theorem after_set : after w history (set history') = (.ok (), history') := rfl

theorem after_ofQuery_ok (a : α) : after w history (ofQuery (.ok a)) = (.ok a, history) := rfl

theorem after_ofRequest_ok (a : α) : after w history (ofRequest (.ok a)) = (.ok a, history) := rfl

theorem after_ofRequest_error (e : Request.Error) :
    after w history (ofRequest (α := α) (.error e)) = (.error (.request e), history) := rfl

theorem after_connect_ok (h : w.connect history = .ok ()) : after w history connect = (.ok (), history) := by
  rw [connect, after_bind_ok after_read, after_bind_ok after_get, h]
  rfl

theorem after_connect_error {e : Run.Error} (h : w.connect history = .error e) :
    after w history connect = (.error e, history) := by
  rw [connect, after_bind_ok after_read, after_bind_ok after_get, h]
  rfl

theorem after_statement (sql : String) (columns : List ResultColumn) :
    after w history (statement sql columns) =
      (w.query history sql columns, history ++ [.statement sql columns]) := by
  rw [statement, after_bind_ok after_read, after_bind_ok after_get, after_bind_ok after_set]
  cases w.query history sql columns <;> rfl

theorem after_rows_ok (h : w.connect history = .ok ()) (sql : String) (columns : List ResultColumn) :
    after w history (rows sql columns) = ((w.query history sql columns).map (·.map (keyRow columns)),
      history ++ [.statement sql columns]) := by
  rw [rows, after_bind_ok (after_connect_ok h)]
  exact after_map (after_statement sql columns) _

theorem after_rows_error {e : Run.Error} (h : w.connect history = .error e) (sql : String)
    (columns : List ResultColumn) : after w history (rows sql columns) = (.error e, history) :=
  after_bind_error (after_connect_error h) _

theorem after_mail_ok {recipient template : String} {record : Row}
    (h : w.deliver history recipient template record = .ok ()) :
    after w history (mail recipient template record) =
      (.ok (), history ++ [.mail recipient template record]) := by
  rw [mail, after_bind_ok after_read, after_bind_ok after_get, h]
  rfl

theorem after_mail_error {recipient template problem : String} {record : Row}
    (h : w.deliver history recipient template record = .error problem) :
    after w history (mail recipient template record) = (.error (.mail problem), history) := by
  rw [mail, after_bind_ok after_read, after_bind_ok after_get, h]
  rfl

end Run

end Retrieval
