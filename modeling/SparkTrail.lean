import SparkTrail.Art.Json
import SparkTrail.Clock
import SparkTrail.Curve.Json
import SparkTrail.Failure
import SparkTrail.Path.Json
import SparkTrail.Proofs.Animation.Phase
import SparkTrail.Proofs.Animation.Rest
import SparkTrail.Proofs.Art.Expansion
import SparkTrail.Proofs.Art.Loading
import SparkTrail.Proofs.Curve.Interpolation
import SparkTrail.Proofs.Curve.Listed
import SparkTrail.Proofs.Expr.Ending
import SparkTrail.Proofs.Expr.ErrorPosition
import SparkTrail.Proofs.Expr.FirstFault
import SparkTrail.Proofs.Expr.Occurrences
import SparkTrail.Proofs.Expr.Partition
import SparkTrail.Proofs.Expr.Shape
import SparkTrail.Proofs.Expr.StepTarget
import SparkTrail.Proofs.Expr.Updates
import SparkTrail.Proofs.Particle.Activation
import SparkTrail.Proofs.Particle.Course
import SparkTrail.Proofs.Particle.InStep
import SparkTrail.Proofs.Particle.Lifetime
import SparkTrail.Proofs.Particle.OnPath
import SparkTrail.Proofs.Particle.Travel
import SparkTrail.Proofs.Particle.WithoutPath
import SparkTrail.Proofs.Path.Separator
import SparkTrail.Proofs.Path.Stable
import SparkTrail.Proofs.Pool.Checked
import SparkTrail.Proofs.Pool.Peak
import SparkTrail.Proofs.Settings.Overrides
import SparkTrail.Proofs.Settings.RoundTrip
import SparkTrail.Proofs.Texture.Table
import SparkTrail.Settings.Environment
