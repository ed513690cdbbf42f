import EcatMaster.Lib.Clients
import EcatMaster.Tasks.Read

/-! # Task instances do not leak into each other

The instances of a class report through one static message. An instance is isolated if two runs with
the same calls of it have it publish the same, whatever the other instances are and do. A report that
writes every field is; a `read` of a receiver that is offline writes `online` only and publishes what
another receiver has left in the other fields.
-/

namespace EcatMaster
set_option autoImplicit false
open Clients

/-- What the data cycle or the checker asks of a task; a `read` finds these bytes. -/
inductive Call where
  | read (buf : List UInt8)
  | publishEmptyMessage
deriving DecidableEq

namespace TaskWrapper

/-- A call at a time: the static members after it, and the message without its time stamp. -/
def call (t : TaskWrapper) (c : ℤ × Call) (self : Shared) : Shared × Option Message :=
  let r := match c.2 with
    | .read buf => t.read c.1 buf self
    | .publishEmptyMessage => t.publishEmptyMessage c.1 self
  (r.1, r.2.map Stamped.body)

/-- What instance `k` publishes at its calls. -/
def published {ι : Type} [DecidableEq ι] (tasks : ι → TaskWrapper) (k : ι)
    (calls : List (ι × ℤ × Call)) : List (Option Message) :=
  observe (fun i c => (tasks i).call c) k sharedStart calls

/-- Two runs over any instances, with `t` among them and the calls `cs` of it at any times, have it
publish the same. -/
def Isolated (t : TaskWrapper) (cs : List Call) : Prop :=
  ∀ (ι : Type) [DecidableEq ι] (k : ι) (tasks₁ tasks₂ : ι → TaskWrapper)
    (calls₁ calls₂ : List (ι × ℤ × Call)),
    tasks₁ k = t → tasks₂ k = t →
    (own k calls₁).map Prod.snd = cs → (own k calls₂).map Prod.snd = cs →
    published tasks₁ k calls₁ = published tasks₂ k calls₂

/-- The bytes say that the receiver of `t` is offline. -/
def ReadsOffline (t : TaskWrapper) (buf : List UInt8) : Prop :=
  match t.cls with
  | .sbusRc => SBUS_RC.online buf t.pdoreadOffset.toNat = false
  | .dbusRc => DBUS_RC.online buf t.pdoreadOffset.toNat = false
  | _ => False

/-! ## A report that writes every field -/

theorem sbusRc_read_online {buf : List UInt8} {offset : ℕ} (h : SBUS_RC.online buf offset = true)
    (m m' : ReadSBUSRC) : SBUS_RC.read buf offset m = SBUS_RC.read buf offset m' := by
  unfold SBUS_RC.read
  rw [if_pos h, if_pos h]

theorem dbusRc_read_online {buf : List UInt8} {offset : ℕ} (h : DBUS_RC.online buf offset = true)
    (m m' : ReadDJIRC) : DBUS_RC.read buf offset m = DBUS_RC.read buf offset m' := by
  unfold DBUS_RC.read
  rw [if_pos h, if_pos h]

/-- What a call publishes from the static members as they start. -/
def report (t : TaskWrapper) (c : Call) : Option Message := (t.call (0, c) sharedStart).2

theorem call_eq_report {t : TaskWrapper} {c : ℤ × Call}
    (h : ∀ buf, c.2 = .read buf → ¬ t.ReadsOffline buf) (self : Shared) :
    (t.call c self).2 = t.report c.2 := by
  obtain ⟨stamp, c⟩ := c
  cases c with
  | publishEmptyMessage =>
    unfold report call publishEmptyMessage
    cases hcls : t.cls with
    | lkMotor isBroadcastMode ct => cases isBroadcastMode <;> rfl
    | _ => rfl
  | read buf =>
    have honline := h buf rfl
    unfold ReadsOffline at honline
    unfold report call read
    cases hcls : t.cls with
    | sbusRc =>
      rw [hcls] at honline
      have hread := sbusRc_read_online (Bool.eq_true_of_not_eq_false honline)
        self.readsbusrc.body sharedStart.readsbusrc.body
      simp only [hread, Option.map_some]
    | dbusRc =>
      rw [hcls] at honline
      have hread := dbusRc_read_online (Bool.eq_true_of_not_eq_false honline)
        self.readdjirc.body sharedStart.readdjirc.body
      simp only [hread, Option.map_some]
    | lkMotor isBroadcastMode ct => cases isBroadcastMode <;> rfl
    | _ => rfl

theorem isolated_of_online {t : TaskWrapper} {cs : List Call}
    (h : ∀ buf, Call.read buf ∈ cs → ¬ t.ReadsOffline buf) : Isolated t cs := by
  intro ι _ k tasks₁ tasks₂ calls₁ calls₂ ht₁ ht₂ hown₁ hown₂
  have hpublished (tasks : ι → TaskWrapper) (calls : List (ι × ℤ × Call)) (ht : tasks k = t)
      (hown : (own k calls).map Prod.snd = cs) :
      published tasks k calls = cs.map t.report := by
    have hreport : ∀ c ∈ own k calls, ∀ self, ((tasks k).call c self).2 = t.report c.2 := by
      intro c hc self
      rw [ht]
      refine call_eq_report (fun buf hread => h buf ?_) self
      rw [← hown, ← hread]
      exact List.mem_map_of_mem hc
    unfold published
    rw [observe_of_overwriting (fun c => t.report c.2) hreport, ← hown, List.map_map]
    rfl
  rw [hpublished tasks₁ calls₁ ht₁ hown₁, hpublished tasks₂ calls₂ ht₂ hown₂]

/-! ## A read of an offline receiver -/

/-- A second receiver of the same class. -/
def otherReceiver (t : TaskWrapper) : TaskWrapper := { t with pdoreadOffset := 0 }

/-- A frame of the second receiver: it is online and every byte is `v`. -/
def otherFrame (v : UInt8) : ℤ × Call := (0, .read (List.replicate 24 v))

theorem sbusRc_read_offline {buf : List UInt8} {offset : ℕ}
    (h : SBUS_RC.online buf offset = false) (m : ReadSBUSRC) :
    SBUS_RC.read buf offset m = { m with online := 0 } := by
  unfold SBUS_RC.read
  rw [if_neg (by rw [h]; exact Bool.false_ne_true)]

theorem dbusRc_read_offline {buf : List UInt8} {offset : ℕ}
    (h : DBUS_RC.online buf offset = false) (m : ReadDJIRC) :
    DBUS_RC.read buf offset m = { m with online := 0 } := by
  unfold DBUS_RC.read
  rw [if_neg (by rw [h]; exact Bool.false_ne_true)]

/-- An offline receiver publishes the fields of the frame the second one has just read. -/
theorem offline_leaks {t : TaskWrapper} {buf : List UInt8} (h : t.ReadsOffline buf) (stamp : ℤ)
    (self self' : Shared) :
    (t.call (stamp, .read buf) (t.otherReceiver.call (otherFrame 1) self).1).2 ≠
      (t.call (stamp, .read buf) (t.otherReceiver.call (otherFrame 2) self').1).2 := by
  unfold ReadsOffline at h
  unfold call read otherReceiver otherFrame
  cases hcls : t.cls with
  | sbusRc =>
    rw [hcls] at h
    have hmsg (v : UInt8) (m : ReadSBUSRC) := sbusRc_read_offline h
      (SBUS_RC.read (List.replicate 24 v) (0 : UInt16).toNat m)
    simp only [hmsg, Option.map_some]
    intro heq
    have hread (v : UInt8) (hv : SBUS_RC.online (List.replicate 24 v) (0 : UInt16).toNat = true)
        (m : ReadSBUSRC) := sbusRc_read_online hv m SBUS_RC.emptyMessage
    rw [hread 1 (by decide), hread 2 (by decide)] at heq
    exact absurd heq (by decide)
  | dbusRc =>
    rw [hcls] at h
    have hmsg (v : UInt8) (m : ReadDJIRC) := dbusRc_read_offline h
      (DBUS_RC.read (List.replicate 24 v) (0 : UInt16).toNat m)
    simp only [hmsg, Option.map_some]
    intro heq
    have hread (v : UInt8) (hv : DBUS_RC.online (List.replicate 24 v) (0 : UInt16).toNat = true)
        (m : ReadDJIRC) := dbusRc_read_online hv m DBUS_RC.emptyMessage
    rw [hread 1 (by decide), hread 2 (by decide)] at heq
    have hclick := congrArg (fun m : Option Message =>
      match m with
      | some (.readDJIRC m) => m.mouseLeftClicked
      | _ => 0) heq
    exact absurd hclick (by decide)
  | _ =>
    rw [hcls] at h
    exact h.elim

theorem not_isolated_of_offline {t : TaskWrapper} {cs : List Call} {buf : List UInt8}
    (hmem : Call.read buf ∈ cs) (h : t.ReadsOffline buf) : ¬ Isolated t cs := by
  intro hiso
  obtain ⟨pre, post, rfl⟩ := List.append_of_mem hmem
  let tasks (i : Bool) : TaskWrapper := if i then t else t.otherReceiver
  let atZero (cs : List Call) : List (ℤ × Call) := cs.map fun c => (0, c)
  have hown (v : UInt8) : (own true (interject true false (atZero pre) (otherFrame v)
      (0, .read buf) (atZero post))).map Prod.snd = pre ++ .read buf :: post := by
    have hatZero (cs : List Call) : (atZero cs).map Prod.snd = cs := by
      rw [List.map_map]
      exact List.map_id cs
    rw [own_interject (by decide), List.map_append, List.map_cons, hatZero, hatZero]
  have hsame := hiso Bool true tasks tasks _ _ rfl rfl (hown 1) (hown 2)
  have hat := congrArg (fun messages => messages[(atZero pre).length]?) hsame
  simp only [published] at hat
  rw [observe_interject (by decide), observe_interject (by decide)] at hat
  exact offline_leaks h 0 _ _ (Option.some.inj hat)

/-- **Isolation.** An instance publishes the same whatever the others are and do, exactly if none of
its calls is a `read` of an offline receiver. -/
theorem isolated_iff (t : TaskWrapper) (cs : List Call) :
    Isolated t cs ↔ ∀ buf, Call.read buf ∈ cs → ¬ t.ReadsOffline buf := by
  constructor
  · intro hiso buf hmem h
    exact not_isolated_of_offline hmem h hiso
  · exact isolated_of_online

/-- An SBUS receiver at the start of the buffer. -/
def sbusTask : TaskWrapper := ⟨.sbusRc, 0, 0, 0, 0⟩

/-- One `read` of a receiver that is offline: after a frame of another receiver it publishes the
channels of that frame. -/
theorem isolated_sbus : ¬ Isolated sbusTask [.read (List.replicate 24 0)] := by
  intro hiso
  have hsame := hiso Bool true (fun _ => sbusTask) (fun _ => sbusTask)
    [(true, 0, .read (List.replicate 24 0))]
    [(false, 0, .read (List.replicate 24 1)), (true, 0, .read (List.replicate 24 0))]
    rfl rfl rfl rfl
  revert hsame
  decide

end TaskWrapper
end EcatMaster
