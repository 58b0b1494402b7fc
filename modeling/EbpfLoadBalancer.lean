import EbpfLoadBalancer.Model.Bounds
import EbpfLoadBalancer.Balancer.Drain
import EbpfLoadBalancer.Balancer.Jobs
import EbpfLoadBalancer.Balancer.Outgoing
import EbpfLoadBalancer.Balancer.Padding
import EbpfLoadBalancer.Balancer.Places
import EbpfLoadBalancer.Balancer.Queue
import EbpfLoadBalancer.Balancer.Spread
import EbpfLoadBalancer.Dropper.Pipeline
import EbpfLoadBalancer.Server.Late
import EbpfLoadBalancer.Protocol.Restarts
import EbpfLoadBalancer.Protocol.Recovery
import EbpfLoadBalancer.Protocol.Totals
import EbpfLoadBalancer.Protocol.Faults
import EbpfLoadBalancer.Protocol.Reload
import EbpfLoadBalancer.Protocol.Deployed
import EbpfLoadBalancer.Protocol.Shortest
import EbpfLoadBalancer.Protocol.Stranded
