import AioPika.Connection.Plain
import AioPika.Connection.Replacement

/-! # How often the close callbacks of a connection are fired

`close_callbacks` are fired when an attempt fails to open a transport and when the
close callback of a transport runs. A `RobustConnection` also fires them when a
channel cannot be restored, with a future, and then closes the transport, whose
close callback fires them again.
-/

namespace AioPika

open Transition

/-- Why `close_callbacks` are fired. -/
inductive Loss where
  /-- An attempt has failed to open a transport. -/
  | attempt
  /-- A transport has ended. -/
  | transport
  /-- A channel was not restored. -/
  | restore
  deriving DecidableEq, Repr

/-- What fires `close_callbacks` in a step. An attempt that is cancelled has not failed. -/
def Connection.loss : Connection.Action → Option Loss
  | .openRaised _ exc => if exc = .cancelled then none else some .attempt
  | .callbackStarted _ => some .transport
  | _ => none

def RobustConnection.loss : RobustConnection.Action → Option Loss
  | .openRaised exc => if exc = .cancelled then none else some .attempt
  | .callbackStarted _ => some .transport
  | .restored (some exc) => if exc = .cancelled then none else some .restore
  | _ => none

def CallbackArgument.isFuture : CallbackArgument → Bool
  | .exception _ => false
  | .future _ => true

namespace Losses

/-- How many transports have ended, and have had their close callback run. -/
def ended (transports : List OneShotCallback) : ℕ :=
  transports.countP fun callback => decide callback.HasRun

/-- One firing for each transport that has ended and each attempt that has failed, with an
exception or `None`. -/
structure PerLoss (failed : ℕ) (transports : List OneShotCallback)
    (firings : List CallbackArgument) : Prop where
  count : firings.length = ended transports + failed
  argument : ∀ arg ∈ firings, ∃ exc, arg = .exception exc

/-- What a step does to the transports and to the firings, by what fires `close_callbacks`. -/
inductive Accounts (transports : List OneShotCallback) (firings : List CallbackArgument) :
    Option Loss → List OneShotCallback → List CallbackArgument → Prop
  | keep {transports' : List OneShotCallback} (he : ended transports' = ended transports) :
      Accounts transports firings none transports' firings
  | attempt {exc : Raised} :
      Accounts transports firings (some .attempt) transports (.exception exc :: firings)
  | transport {transports' : List OneShotCallback} {exc : Option Raised}
      (he : ended transports' = ended transports + 1) :
      Accounts transports firings (some .transport) transports' (.exception exc :: firings)
  | restore {exc : Raised} :
      Accounts transports firings (some .restore) transports (.future exc :: firings)

variable {transports transports' : List OneShotCallback} {firings firings' : List CallbackArgument}
  {old new : OneShotCallback} {loss : Option Loss} {t : ℕ}

section Ended

theorem ended_append (hn : ¬ new.HasRun) : ended (transports ++ [new]) = ended transports := by
  simp [ended, hn]

theorem ended_set (h : transports[t]? = some old) (hr : new.HasRun ↔ old.HasRun) :
    ended (transports.set t new) = ended transports := by
  obtain ⟨hlt, hget⟩ := List.getElem?_eq_some_iff.mp h
  have hold : transports.countP (fun callback => decide callback.HasRun) ≥
      if decide transports[t].HasRun then 1 else 0 := by
    split
    · rename_i hd
      exact List.one_le_countP_iff.mpr ⟨_, List.getElem_mem hlt, hd⟩
    · exact Nat.zero_le _
  have he : decide new.HasRun = decide transports[t].HasRun := by
    rw [hget]
    exact decide_eq_decide.mpr hr
  rw [ended, List.countP_set hlt, he]
  exact Nat.sub_add_cancel hold

theorem ended_set_run (h : transports[t]? = some old) (ho : ¬ old.HasRun) (hn : new.HasRun) :
    ended (transports.set t new) = ended transports + 1 := by
  obtain ⟨hlt, hget⟩ := List.getElem?_eq_some_iff.mp h
  rw [ended, List.countP_set hlt, hget]
  simp [ho, hn, ended]

end Ended

theorem connection_accounts {s u : Connection} {a : Connection.Action} (h : s.step a = some u) :
    Accounts s.transports s.closeFirings (Connection.loss a) u.transports u.closeFirings := by
  cases a with
  | connect | close =>
    obtain rfl := Option.some.inj h
    exact .keep rfl
  | opened i =>
    simp only [Connection.step] at h
    split at h
    · obtain rfl := Option.some.inj h
      exact .keep (ended_append id)
    · cases h
  | openRaised i exc =>
    simp only [Connection.step] at h
    split at h
    · split at h
      · rename_i hexc
        obtain rfl := Option.some.inj h
        rw [Connection.loss, if_pos hexc]
        exact .keep rfl
      · rename_i hexc
        obtain rfl := Option.some.inj h
        rw [Connection.loss, if_neg hexc]
        exact .attempt
    · cases h
  | reported i | reportCancelled i | closeRaised i =>
    simp only [Connection.step] at h
    split at h
    · obtain rfl := Option.some.inj h
      exact .keep rfl
    · cases h
  | died t exc =>
    simp only [Connection.step] at h
    split at h
    · rename_i hi
      obtain rfl := Option.some.inj h
      exact .keep (ended_set hi Iff.rfl)
    · cases h
  | callbackStarted t =>
    simp only [Connection.step] at h
    split at h
    · rename_i hi
      obtain rfl := Option.some.inj h
      exact .transport (ended_set_run hi id trivial)
    · cases h
  | callbackEnded t =>
    simp only [Connection.step] at h
    split at h
    · rename_i hi
      obtain rfl := Option.some.inj h
      exact .keep (ended_set hi Iff.rfl)
    · cases h
  | closeEnded j =>
    simp only [Connection.step] at h
    split at h
    · split at h
      · obtain rfl := Option.some.inj h
        exact .keep rfl
      · cases h
    · cases h

section Robust

variable {s u : RobustConnection} {a : RobustConnection.Action} {exc : Raised}

theorem attemptFailed_closeFirings : (s.attemptFailed exc).closeFirings = s.closeFirings := by
  obtain ⟨done, pc, -, h⟩ := s.attemptFailed_eq exc
  rw [h]

theorem connectionClosed_closeFirings : s.connectionClosed.closeFirings = s.closeFirings := by
  obtain ⟨event, h⟩ := s.connectionClosed_eq
  rw [h]

theorem restoreChannels_closeFirings {channels : List ChannelId} :
    (s.restoreChannels t channels).closeFirings = s.closeFirings := by
  obtain ⟨done, event, attempt, pc, firings, h⟩ := s.restoreChannels_eq t channels
  rw [h]

theorem restoreChannels_transports {channels : List ChannelId} :
    (s.restoreChannels t channels).transports = s.transports := by
  obtain ⟨done, event, attempt, pc, firings, h⟩ := s.restoreChannels_eq t channels
  rw [h]

theorem Accounts.same (ht : u.transports = transports) (hf : u.closeFirings = firings) :
    Accounts transports firings none u.transports u.closeFirings := by
  rw [ht, hf]
  exact .keep rfl

theorem Accounts.attemptFailed :
    Accounts s.transports s.closeFirings none (s.attemptFailed exc).transports
      (s.attemptFailed exc).closeFirings :=
  .same RobustConnection.attemptFailed_transports attemptFailed_closeFirings

theorem robust_accounts (h : s.step a = some u) :
    Accounts s.transports s.closeFirings (RobustConnection.loss a) u.transports
      u.closeFirings := by
  cases RobustConnection.step_cases h with
  | connect | channel | collected | stopped | woken | slept | failureReported | notified
  | superClose | gathering | factoryGathered | closeEnded | closeRaised => exact .keep rfl
  | openCancelled | restoreCancelled | transportClosed | cancelled => exact .attemptFailed
  | opened =>
    rw [restoreChannels_transports, restoreChannels_closeFirings]
    exact .keep (ended_append id)
  | restored => exact .same restoreChannels_transports restoreChannels_closeFirings
  | openRaised _ he =>
    rw [RobustConnection.loss, if_neg he]
    exact .attempt
  | restoreRaised _ he =>
    rw [RobustConnection.loss, if_neg he]
    exact .restore
  | reported =>
    apply Accounts.same
    · rw [RobustConnection.attemptFailed_transports, RobustConnection.connectionClosed_transports]
    · rw [attemptFailed_closeFirings, connectionClosed_closeFirings]
  | died hi => exact .keep (ended_set hi Iff.rfl)
  | callbackStarted hi => exact .transport (ended_set_run hi id trivial)
  | callbackEnded hi =>
    rw [RobustConnection.connectionClosed_transports, connectionClosed_closeFirings]
    exact .keep (ended_set hi Iff.rfl)

end Robust

section Run

variable {σ α : Type} {step : σ → α → Option σ} {ok : σ → α → Prop} {lossOf : α → Option Loss}
  {transportsOf : σ → List OneShotCallback} {firingsOf : σ → List CallbackArgument} {s u : σ}
  {as : List α}

def failedAttempts (lossOf : α → Option Loss) (as : List α) : ℕ :=
  as.countP fun a => lossOf a = some .attempt

theorem countP_isSome : (as.countP fun a => (lossOf a).isSome) =
    (as.countP fun a => lossOf a = some .transport) + failedAttempts lossOf as +
      as.countP fun a => lossOf a = some .restore := by
  unfold failedAttempts
  induction as with
  | nil => rfl
  | cons a as ih =>
    simp only [List.countP_cons, ih]
    cases lossOf a with
    | none => simp
    | some l =>
      cases l <;> simp <;> omega

variable (hstep : ∀ s a u, step s a = some u →
  Accounts (transportsOf s) (firingsOf s) (lossOf a) (transportsOf u) (firingsOf u))

include hstep

theorem length_run (h : Run step ok s as u) :
    (firingsOf u).length = (firingsOf s).length + as.countP fun a => (lossOf a).isSome := by
  apply h.count fun s => (firingsOf s).length
  intro s a u hst
  have ha := hstep s a u hst
  generalize lossOf a = l, transportsOf u = ts, firingsOf u = fs at ha
  cases ha <;> rfl

theorem ended_run (h : Run step ok s as u) :
    ended (transportsOf u) =
      ended (transportsOf s) + as.countP fun a => lossOf a = some .transport := by
  apply h.count fun s => ended (transportsOf s)
  intro s a u hst
  have ha := hstep s a u hst
  generalize lossOf a = l, transportsOf u = ts, firingsOf u = fs at ha
  cases ha with
  | keep he | transport he => exact he
  | attempt | restore => rfl

theorem futures_run (h : Run step ok s as u) :
    (firingsOf u).countP CallbackArgument.isFuture =
      (firingsOf s).countP CallbackArgument.isFuture +
        as.countP fun a => lossOf a = some .restore := by
  apply h.count fun s => (firingsOf s).countP CallbackArgument.isFuture
  intro s a u hst
  have ha := hstep s a u hst
  generalize lossOf a = l, transportsOf u = ts, firingsOf u = fs at ha
  cases ha with
  | keep | attempt | transport => rfl
  | restore => exact List.countP_cons_of_pos rfl

/-- From a state in which nothing was fired, the firings are one for each loss if and only if
no restore has failed. -/
theorem perLoss_iff (hf : firingsOf s = []) (he : ended (transportsOf s) = 0)
    (h : Run step ok s as u) :
    PerLoss (failedAttempts lossOf as) (transportsOf u) (firingsOf u) ↔
      ∀ a ∈ as, lossOf a ≠ some .restore := by
  have hlength := length_run hstep h
  have hended := ended_run hstep h
  have hfutures := futures_run hstep h
  have hsum : as.countP (fun a => (lossOf a).isSome) = _ := countP_isSome
  rw [hf] at hlength hfutures
  have hzero : as.countP (fun a => lossOf a = some .restore) = 0 ↔
      ∀ a ∈ as, lossOf a ≠ some .restore := by
    simp [List.countP_eq_zero]
  rw [← hzero]
  constructor
  · intro hp
    have hcount := hp.count
    simp only [List.length_nil] at hlength
    omega
  · intro hn
    constructor
    · simp only [List.length_nil] at hlength
      omega
    · intro arg harg
      have hnone : (firingsOf u).countP CallbackArgument.isFuture = 0 := by
        rw [hfutures, hn]
        rfl
      cases arg with
      | exception exc => exact ⟨exc, rfl⟩
      | future exc => exact absurd rfl (List.countP_eq_zero.mp hnone _ harg)

end Run

/-- In every run of a `Connection`, and in exactly those runs of a `RobustConnection` in which no
channel fails to be restored, `close_callbacks` are fired once for each transport that has ended
and for each attempt that has failed, with an exception or `None`. -/
theorem close_callbacks_per_loss (failFast : Bool) (as : List Connection.Action)
    (bs : List RobustConnection.Action) (plain : Connection) (robust : RobustConnection)
    (hp : Run Connection.step (fun _ _ => True) Connection.fresh as plain)
    (hr : Run RobustConnection.step (fun _ _ => True) (RobustConnection.fresh failFast) bs
      robust) :
    PerLoss (failedAttempts Connection.loss as) plain.transports plain.closeFirings ∧
      (PerLoss (failedAttempts RobustConnection.loss bs) robust.transports robust.closeFirings ↔
        ∀ b ∈ bs, RobustConnection.loss b ≠ some .restore) := by
  constructor
  · refine (perLoss_iff (fun _ _ _ => connection_accounts) rfl rfl hp).mpr fun a _ => ?_
    cases a with
    | openRaised i exc =>
      unfold Connection.loss
      split <;> simp
    | _ => simp [Connection.loss]
  · exact perLoss_iff (fun _ _ _ => robust_accounts) rfl rfl hr

/-- The first attempt of `connect()` fails, and the transport of the second is lost. -/
def failedAndLost : List Connection.Action :=
  [.connect, .openRaised 0 .connection, .reported 0, .connect, .opened 1, .died 0 none,
    .callbackStarted 0, .callbackEnded 0]

def lostAndFailed : List RobustConnection.Action :=
  [.connect, .woken, .opened [], .slept, .died 0 (some .connection), .callbackStarted 0,
    .callbackEnded 0, .woken, .openRaised .connection]

/-- The transport is lost, and the only channel is not restored on the next one. -/
def lostAndNotRestored : List RobustConnection.Action :=
  [.connect, .woken, .opened [], .channel 0, .slept, .died 0 (some .connection),
    .callbackStarted 0, .callbackEnded 0, .woken, .opened [0], .restored (some .other),
    .failureReported, .died 1 (some .other), .transportClosed, .callbackStarted 1,
    .callbackEnded 1]

theorem fired_twice : ∃ plain robust,
    Run Connection.step (fun _ _ => True) Connection.fresh failedAndLost plain ∧
      Run RobustConnection.step (fun _ _ => True) (RobustConnection.fresh true) lostAndFailed
        robust ∧
      PerLoss 1 plain.transports plain.closeFirings ∧
      PerLoss 1 robust.transports robust.closeFirings := by
  refine ⟨_, _, run_of_checked rfl, run_of_checked rfl, ?_⟩
  have h := close_callbacks_per_loss true failedAndLost lostAndFailed _ _ (run_of_checked rfl)
    (run_of_checked rfl)
  exact ⟨h.1, h.2.mpr (by decide)⟩

/-- Two transports have ended, no attempt has failed, and `close_callbacks` were fired thrice, once
with a future. -/
theorem fired_for_restore : ∃ s, Run RobustConnection.step (fun _ _ => True)
    (RobustConnection.fresh true) lostAndNotRestored s ∧
      ¬ PerLoss (failedAttempts RobustConnection.loss lostAndNotRestored) s.transports
        s.closeFirings := by
  refine ⟨_, run_of_checked rfl, fun h => ?_⟩
  exact absurd h.count (by decide)

end Losses

end AioPika
