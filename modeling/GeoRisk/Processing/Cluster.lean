import GeoRisk.Text.Calendar
import Mathlib.Algebra.BigOperators.Group.List.Basic
import Mathlib.Algebra.Order.Ring.Rat

/-!
# Vectors and clusters

`embed.py` and `cluster.py`: documents are grouped by the similarity of their centroids and by time.
Vectors are rational; the square root of the standard library is the parameter `sqrt`.  The vector
search of the database is a `Ranking`: some order of the rows that depends on the vector.

* `cosineSimilarity`, `centroid`    fail on vectors of differing dimension;
* `findMatchingCluster`             the most similar of the first candidates that is similar enough
                                    and inside the time window;
* `assignToCluster`                 joins that cluster or starts a new one.
-/

namespace GeoRisk

abbrev Vector := List ℚ

def similarityThreshold : ℚ := 39 / 50

/-- `TIME_WINDOW` in microseconds -/
def timeWindow : Nat := 14 * 86400 * 1000000

def candidateLimit : Nat := 10

structure EventCluster where
  id : Nat
  centroid : Option Vector
  similarityThreshold : ℚ
  memberCount : Nat
  firstSeenAt : Option DateTime
  lastUpdatedAt : Option DateTime
  deriving DecidableEq, Repr

/-- the order in which the database returns the clusters for a vector -/
structure Ranking where
  order : Vector → List EventCluster → List EventCluster
  order_perm : ∀ v cs, (order v cs).Perm cs

structure ClusterMatch where
  clusterId : Option Nat
  similarity : ℚ
  withinWindow : Bool
  isNew : Bool
  deriving DecidableEq, Repr

def ClusterMatch.matched (m : ClusterMatch) : Bool := m.clusterId.isSome && !m.isNew

section
variable (sqrt : ℚ → ℚ)

def magnitude (v : Vector) : ℚ := sqrt (v.map fun x => x * x).sum

def normaliseVector (v : Vector) : Vector :=
  if magnitude sqrt v = 0 then v else v.map (· / magnitude sqrt v)

def cosineSimilarity (left right : Vector) : Except Text ℚ :=
  if left.length ≠ right.length then
    .error (txt "dimension mismatch: " ++ left.length.repr.toList ++ txt " vs " ++
      right.length.repr.toList)
  else if magnitude sqrt left = 0 ∨ magnitude sqrt right = 0 then .ok 0
  else .ok ((List.zipWith (· * ·) left right).sum / (magnitude sqrt left * magnitude sqrt right))

def centroid (vectors : List Vector) : Except Text Vector :=
  match vectors with
  | [] => .ok []
  | first :: _ =>
    if vectors.any fun v => v.length ≠ first.length then
      .error (txt "cannot average vectors of differing dimension")
    else
      let summed := (List.range first.length).map fun i => (vectors.map fun v => v.getD i 0).sum
      .ok (normaliseVector sqrt (summed.map (· / vectors.length)))

/-- the loop of `find_matching_cluster` over the candidates -/
def bestMatch (vector : Vector) (reference : DateTime) :
    Option (ℚ × EventCluster) → List EventCluster → Except Text (Option (ℚ × EventCluster))
  | best, [] => .ok best
  | best, candidate :: rest =>
    match candidate.centroid with
    | none => bestMatch vector reference best rest
    | some c =>
      match cosineSimilarity sqrt vector c with
      | .error e => .error e
      | .ok similarity =>
        if similarity < similarityThreshold then bestMatch vector reference best rest
        else
          let lastSeen := candidate.lastUpdatedAt.or candidate.firstSeenAt
          if lastSeen.any fun seen => decide (timeWindow < reference.distance seen) then
            bestMatch vector reference best rest
          else if best.all fun b => decide (b.1 < similarity) then
            bestMatch vector reference (some (similarity, candidate)) rest
          else bestMatch vector reference best rest

def findMatchingCluster (ranking : Ranking) (clusters : List EventCluster) (vector : Vector)
    (reference : DateTime) : Except Text ClusterMatch :=
  if vector = [] then .ok ⟨none, 0, false, true⟩
  else
    let candidates :=
      (ranking.order vector (clusters.filter fun c => c.centroid.isSome)).take candidateLimit
    match bestMatch sqrt vector reference none candidates with
    | .error e => .error e
    | .ok none => .ok ⟨none, 0, false, true⟩
    | .ok (some (similarity, cluster)) => .ok ⟨some cluster.id, similarity, true, false⟩

def joinCluster (cluster : EventCluster) (vector : Vector) (now : DateTime) :
    Except Text EventCluster :=
  let members := cluster.memberCount + 1
  let joined := { cluster with
    memberCount := members
    lastUpdatedAt := some ((cluster.lastUpdatedAt.getD now).latest now) }
  match cluster.centroid with
  | none => .ok joined
  | some existing =>
    if vector = [] then .ok joined
    else
      let weight : ℚ := 1 / members
      match centroid sqrt [existing.map (· * (1 - weight)), vector.map (· * weight)] with
      | .error e => .error e
      | .ok moved => .ok { joined with centroid := some moved }

/-- `assign_to_cluster`: the clusters afterwards, the cluster joined or started, and the match;
`fresh` is the key of a new row -/
def assignToCluster (ranking : Ranking) (clusters : List EventCluster) (fresh : Nat)
    (vector : Vector) (now : DateTime) :
    Except Text (List EventCluster × EventCluster × ClusterMatch) :=
  match findMatchingCluster sqrt ranking clusters vector now with
  | .error e => .error e
  | .ok found =>
    let matching :=
      if found.matched then found.clusterId.bind fun i => clusters.find? (·.id = i) else none
    match matching with
    | some cluster =>
      match joinCluster sqrt cluster vector now with
      | .error e => .error e
      | .ok joined => .ok (clusters.map fun c => if c.id = joined.id then joined else c, joined, found)
    | none =>
      let started : EventCluster :=
        ⟨fresh, if vector = [] then none else some vector, similarityThreshold, 1, some now, some now⟩
      .ok (clusters ++ [started], started, ⟨some fresh, 0, true, true⟩)

end

end GeoRisk
