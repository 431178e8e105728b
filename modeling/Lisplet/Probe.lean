import Lisplet.Tool
/-!
# Probes

Host tools that report what they were handed: how many operands, the first of them, or the first of them read as an
integer, a float or an alias.  A probe of any other kind fails.  They show a host's side of the registry, and none of
them looks at the number of its operands.

All that is used of a probe is in `run_cases`: it makes numbers, makes an alias only if that is its kind, and otherwise
hands back what it was handed first.
-/
namespace Lisplet

structure Probe where
  name : String
  kind : String

namespace Probe

def first (args : List (Value Probe)) : Value Probe :=
  args.headD .null

instance : Named Probe where
  name p := p.name
  description p := p.kind

def run (p : Probe) (args : List (Value Probe)) : Except Error (Value Probe) :=
  if p.kind = "count" then .ok (.num (.int (Int64.ofNat args.length)))
  else if p.kind = "first" then .ok (first args)
  else if p.kind = "int" then (first args).toInteger.map fun n => .num (.int n)
  else if p.kind = "float" then (first args).toFloat.map fun x => .num (.float x)
  else if p.kind = "alias" then .ok (.symbol (first args).text)
  else .error (.malformed (.toolFailure p.name))

instance : Host Probe where
  run := run

theorem toInteger_cases (v : Value Probe) :
    (∃ n, v.toInteger = .ok n) ∨ v.toInteger = .error (.type .int v.kind) := by
  unfold Value.toInteger
  split
  · exact .inl ⟨_, rfl⟩
  · exact .inr rfl

theorem toFloat_cases (v : Value Probe) :
    (∃ x, v.toFloat = .ok x) ∨ v.toFloat = .error (.type .number v.kind) := by
  cases v with
  | num n => exact .inl ⟨n.toBinary64, rfl⟩
  | null | bool | symbol | closure | builtin => exact .inr rfl

/-- **What a probe answers.** -/
theorem run_cases (p : Probe) (args : List (Value Probe)) :
    (∃ n, p.run args = .ok (.num n)) ∨ p.run args = .ok (first args) ∨
    (p.kind = "alias" ∧ p.run args = .ok (.symbol (first args).text)) ∨
    (∃ wanted, p.run args = .error (.type wanted (first args).kind)) ∨
    p.run args = .error (.malformed (.toolFailure p.name)) := by
  unfold run
  split
  · exact .inl ⟨_, rfl⟩
  split
  · exact .inr (.inl rfl)
  split
  · rcases toInteger_cases (first args) with ⟨n, hn⟩ | hn
    · exact .inl ⟨.int n, by rw [hn]; rfl⟩
    · exact .inr (.inr (.inr (.inl ⟨.int, by rw [hn]; rfl⟩)))
  split
  · rcases toFloat_cases (first args) with ⟨x, hx⟩ | hx
    · exact .inl ⟨.float x, by rw [hx]; rfl⟩
    · exact .inr (.inr (.inr (.inl ⟨.number, by rw [hx]; rfl⟩)))
  split
  · next hkind => exact .inr (.inr (.inl ⟨hkind, rfl⟩))
  · exact .inr (.inr (.inr (.inr rfl)))

theorem first_eq_or_mem (args : List (Value Probe)) : first args = .null ∨ first args ∈ args := by
  cases args with
  | nil => exact .inl rfl
  | cons v rest => exact .inr List.mem_cons_self

end Probe
end Lisplet
