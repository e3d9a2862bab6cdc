import GlobeTexture.Log
import GlobeTexture.Proofs.Drawing
import GlobeTexture.Session
import GlobeTexture.Proofs.Nearest
import GlobeTexture.Proofs.Planning
import GlobeTexture.Proofs.Resampling
import GlobeTexture.Proofs.Inward
import GlobeTexture.Proofs.Seamless
import GlobeTexture.Proofs.Seamless.FixedPoint
import GlobeTexture.Proofs.Reporting
import GlobeTexture.Proofs.Seamless.Skipping
import GlobeTexture.Proofs.Transaction
import GlobeTexture.Proofs.Redrawing
import GlobeTexture.Proofs.Totality
import GlobeTexture.Proofs.Session
import GlobeTexture.Proofs.Origins
import GlobeTexture.Proofs.Seamless.Outside
import GlobeTexture.Proofs.Partition
import GlobeTexture.Proofs.Indifference
import GlobeTexture.Proofs.Logging
import GlobeTexture.Proofs.Applying
import GlobeTexture.Proofs.Seamless.Contents
import GlobeTexture.Proofs.Fractions
import GlobeTexture.Proofs.Reading
import GlobeTexture.Proofs.Progress
import GlobeTexture.Proofs.Floors
import GlobeTexture.Proofs.Sampling
import GlobeTexture.Proofs.Walking
import GlobeTexture.Proofs.Naming
