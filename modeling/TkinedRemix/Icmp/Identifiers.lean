import TkinedRemix.Icmp.ServiceWindow

/-!
The ICMP identifiers of jobs come from a counter of sixteen bits, and a job can live longer than the counter
needs to come around.
-/

namespace Tnm.Icmp

open Lib List

variable {config : Config}

/-- A new job gets an identifier that no live job has. A reply answers a probe that was sent under its identifier,
by a job `origin` of its type that is still alive, unless no live job has the identifier. -/
def Matching (config : Config) (origin : Packet → Nat) (daemon : Daemon) : Action → Prop
  | .read (.command _ _ _) => nextIdent config daemon ∉ daemon.jobs.map Job.id
  | .packet packet _ _ =>
    ∀ type final, replyType packet = some (type, final) → type ≠ icmpTypeTrace →
      (∃ time, .sent (origin packet) packet.icmpId.toNat time ∈ daemon.log) ∧
        ((∃ sender ∈ daemon.jobs, sender.serial = origin packet ∧ sender.type = type) ∨
          packet.icmpId.toNat ∉ daemon.jobs.map Job.id)
  | _ => True

theorem daemonStep_idents {origin : Packet → Nat} (daemon : Daemon) (action : Action)
    (fresh : Matching config origin daemon action)
    (distinct : (daemon.jobs.map Job.id).Nodup) : ((daemonStep config daemon action).jobs.map Job.id).Nodup := by
  rcases (daemonStep_inv config daemon action).changes with ⟨evolves, -⟩ | ⟨_, _, rfl, admits, jobs, -⟩
  · exact distinct.sublist (evolves.map_sublist Same.id)
  · obtain ⟨_, _, _, rfl, rfl, -⟩ := admits
    rw [jobs, map_cons, nodup_cons]
    exact ⟨fresh, distinct⟩

theorem findJobById_live {jobs : List Job} (distinct : (jobs.map Job.id).Nodup) {job : Job} (live : job ∈ jobs) :
    findJobById jobs job.id = some job := by
  have found : (findJobById jobs job.id).isSome :=
    find?_isSome.mpr ⟨job, live, by simp⟩
  obtain ⟨other, located⟩ := Option.isSome_iff_exists.mp found
  have same : other.id = job.id := by simpa using find?_some located
  rw [located, inj_on_of_nodup_map distinct (mem_of_find?_eq_some located) live same]

theorem creditedJob_replyType {jobs : List Job} {packet : Packet} {job : Job} {type : Nat} {final : Bool}
    (credited : creditedJob config jobs packet = some (job, type, final)) : replyType packet = some (type, final) := by
  simp only [creditedJob, Option.bind_eq_bind, Option.bind_eq_some_iff] at credited
  obtain ⟨_, _, ⟨_, _⟩, isType, _, _, _, _, _, _, same⟩ := credited
  cases same
  exact isType

def answered : List Action :=
  [.read (.command (sampleRequest 1 0) 0 true), .pass tenSeconds, .scan tenSeconds tenSeconds true fun _ => false]

end Tnm.Icmp
