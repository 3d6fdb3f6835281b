import MissionCompiler.Render.Checks
import MissionCompiler.Schema.Selector

/-!
# The names an operator may use

The checks of names that are copied as they stand accept the texts of their grammars and no
others: a subdomain is checked part by part, so it is not enough that its ends are alphanumeric.
-/

namespace MissionCompiler.Render

open Lib Names Schema

/-- `_require_k8s_label` accepts the DNS labels of up to 63 characters. -/
theorem requireK8sLabel_eq_ok {value result : String} :
    requireK8sLabel value = .ok result ↔
      result = value ∧ DnsLabel value.toList ∧ value.length ≤ 63 := by
  have hlabel : fullmatch rfc1123LabelRe value.toList = true ↔ DnsLabel value.toList :=
    fullmatch_dnsLabel
  rw [requireK8sLabel, ite_error_eq_ok, ← hlabel, Except.ok.injEq, and_comm]
  exact and_congr eq_comm (by simp)

/-- `_require_k8s_subdomain` accepts the DNS subdomains of up to `max_len` characters. -/
theorem requireK8sSubdomain_eq_ok {value result : String} {maxLen : Nat} :
    requireK8sSubdomain value maxLen = .ok result ↔
      result = value ∧ DnsSubdomain value.toList ∧ value.length ≤ maxLen := by
  have hparts : DnsSubdomain value.toList ↔ ∀ part ∈ value.toList.splitOn '.', DnsLabel part :=
    separated_iff fun part h => h.no_dot
  have hlabel : ∀ part, fullmatch rfc1123LabelRe part = true ↔ DnsLabel part := fun part =>
    fullmatch_dnsLabel
  -- an empty text has one empty part, which is no label
  have hne : DnsSubdomain value.toList → 0 < value.length := by
    intro h
    rw [← String.length_toList, List.length_pos_iff]
    intro hnil
    rw [hparts, hnil] at h
    exact (h [] List.mem_cons_self).ne_nil rfl
  have hcheck : (value.toList.splitOn '.').all (fullmatch rfc1123LabelRe) = true ↔
      DnsSubdomain value.toList := by
    rw [List.all_eq_true, hparts]
    exact forall₂_congr fun part _ => hlabel part
  rw [requireK8sSubdomain]
  constructor
  · intro h
    split at h
    next hc =>
      simp only [Bool.and_eq_true, decide_eq_true_eq] at hc
      exact ⟨(Except.ok.inj h).symm, hcheck.mp hc.2, hc.1.2⟩
    next => cases h
  · rintro ⟨rfl, h, hlen⟩
    rw [if_pos]
    simp only [Bool.and_eq_true, decide_eq_true_eq]
    exact ⟨⟨hne h, hlen⟩, hcheck.mpr h⟩

/-- The validators of names and selectors accept their grammars, and return what they are given:
subdomains up to any length, labels up to 63 characters, and label selectors. -/
theorem validators_accept_grammars :
    (∀ value maxLen result, requireK8sSubdomain value maxLen = .ok result ↔
      result = value ∧ DnsSubdomain value.toList ∧ value.length ≤ maxLen) ∧
    (∀ value result, requireK8sLabel value = .ok result ↔
      result = value ∧ DnsLabel value.toList ∧ value.length ≤ 63) ∧
    ∀ selector result, validLabelSelector selector = .ok result ↔
      result = selector ∧ LabelSelector selector :=
  ⟨fun _ _ _ => requireK8sSubdomain_eq_ok, fun _ _ => requireK8sLabel_eq_ok,
    fun _ _ => validLabelSelector_eq_ok⟩

end MissionCompiler.Render
